import TitanBench.StatsRing

/-!
# The sample ring is a lossless FIFO

`Writer.Inv` is what holds of a writer at any moment, `Collector.Inv` ties each writer to the
consumer, which works with stale copies of its indices.

* `Writer.Inv.recordStep` — the producer's steps keep its invariant.
* `Collector.Inv.act`, `Collector.Inv.run` — every step, and every interleaving, keeps the
  collector's.
* `Collector.ring_fifo` — what follows for the samples of each writer.
-/

namespace TitanBench

open RingBuffer

/-! ## One writer -/

/-- The producer's copies of the indices, and what they promise about its next step. -/
def Writer.PcOk (k : ℕ) (w : Writer) : Prop :=
  match w.pc with
  | .idle => True
  | .drop _ => True
  | .loadRead _ write => write = w.accepted.length
  | .writeSlot _ write => write = w.accepted.length ∧ write < w.readIndex + 2 ^ k
  | .storeWrite s write =>
    write = w.accepted.length ∧ write < w.readIndex + 2 ^ k
      ∧ w.ring (slot (2 ^ k - 1) write) = s

structure Writer.Inv (k : ℕ) (w : Writer) : Prop where
  write_eq : w.writeIndex = w.accepted.length
  read_le : w.readIndex ≤ w.accepted.length
  room : w.accepted.length ≤ w.readIndex + 2 ^ k
  holds : Holds (2 ^ k - 1) w.ring w.accepted w.readIndex
  pc : w.PcOk k
  calls : w.calls.Perm (w.accepted ++ w.rejected ++ w.pc.sample)

namespace Writer

variable {k : ℕ} {w : Writer}

theorem inv_fresh (k : ℕ) : Writer.Inv k {} :=
  ⟨rfl, le_rfl, Nat.zero_le _, holds_nil _ _ _, trivial, List.Perm.refl _⟩

theorem Inv.recordStep (h : w.Inv k) (sample : RequestSample) :
    (w.recordStep (2 ^ k) sample).Inv k := by
  obtain ⟨hw, hr, hroom, hholds, hpc, hcalls⟩ := h
  unfold Writer.PcOk at hpc
  unfold Writer.recordStep
  cases hc : w.pc with
  | idle =>
    rw [hc] at hcalls
    refine ⟨hw, hr, hroom, hholds, hw, ?_⟩
    simpa only [RecordPc.sample, List.append_nil] using hcalls.append_right [sample]
  | loadRead s write =>
    rw [hc] at hpc hcalls
    -- The producer's copy is its own index, so only the reader can have moved since.
    by_cases hfull : write - w.readIndex ≥ 2 ^ k
    · simp only [hfull, if_true]
      exact ⟨hw, hr, hroom, hholds, trivial, hcalls⟩
    · have hlt : write < w.readIndex + 2 ^ k := by omega
      simp only [hfull, if_false]
      exact ⟨hw, hr, hroom, hholds, ⟨hpc, hlt⟩, hcalls⟩
  | drop s =>
    rw [hc] at hcalls
    exact ⟨hw, hr, hroom, hholds, trivial, by simpa [RecordPc.sample] using hcalls⟩
  | writeSlot s write =>
    rw [hc] at hpc hcalls
    obtain ⟨rfl, hlt⟩ := hpc
    exact ⟨hw, hr, hroom, hholds.write hlt s, ⟨rfl, hlt, Function.update_self _ _ _⟩, hcalls⟩
  | storeWrite s write =>
    rw [hc] at hpc hcalls
    obtain ⟨rfl, hlt, hslot⟩ := hpc
    refine ⟨?_, ?_, ?_, hholds.push hslot, trivial, hcalls.trans ?_⟩
    · simp
    · simp only [List.length_append, List.length_singleton]
      omega
    · simp only [List.length_append, List.length_singleton]
      omega
    · simp only [RecordPc.sample, List.append_nil, List.append_assoc]
      exact List.Perm.append_left _ List.perm_append_comm

/-- The consumer gives slots back. -/
theorem Inv.advance (h : w.Inv k) {r : ℕ} (hle : w.readIndex ≤ r) (hr : r ≤ w.accepted.length) :
    Writer.Inv k { w with readIndex := r } := by
  obtain ⟨hw, -, hroom, hholds, hpc, hcalls⟩ := h
  refine ⟨hw, hr, ?_, hholds.mono hle, ?_, hcalls⟩
  · show w.accepted.length ≤ r + 2 ^ k
    omega
  · unfold Writer.PcOk at hpc ⊢
    cases hc : w.pc with
    | idle => trivial
    | drop s => trivial
    | loadRead s write => rw [hc] at hpc; exact hpc
    | writeSlot s write =>
      rw [hc] at hpc
      exact ⟨hpc.1, hpc.2.trans_le (Nat.add_le_add_right hle _)⟩
    | storeWrite s write =>
      rw [hc] at hpc
      exact ⟨hpc.1, hpc.2.1.trans_le (Nat.add_le_add_right hle _), hpc.2.2⟩

theorem Inv.clearDropped (h : w.Inv k) : Writer.Inv k { w with dropped := 0 } :=
  ⟨h.write_eq, h.read_le, h.room, h.holds, h.pc, h.calls⟩

/-! What the consumer may rely on while the producer moves. -/

@[simp] theorem recordStep_readIndex (capacity : ℕ) (sample : RequestSample) :
    (w.recordStep capacity sample).readIndex = w.readIndex := by
  unfold Writer.recordStep
  split
  case h_2 => split_ifs <;> rfl
  all_goals rfl

/-- Accepted samples stay accepted, in place. -/
theorem accepted_recordStep (capacity : ℕ) (sample : RequestSample) :
    w.accepted <+: (w.recordStep capacity sample).accepted := by
  unfold Writer.recordStep
  split
  case h_2 => split_ifs <;> exact List.prefix_rfl
  case h_5 => exact List.prefix_append _ _
  all_goals exact List.prefix_rfl

/-- A rejected sample is counted in `dropped`. -/
theorem rejected_recordStep (capacity : ℕ) (sample : RequestSample) :
    (w.recordStep capacity sample).rejected.length + w.dropped
      = w.rejected.length + (w.recordStep capacity sample).dropped := by
  unfold Writer.recordStep
  split
  case h_2 => split_ifs <;> rfl
  case h_3 =>
    simp only [List.length_append, List.length_singleton]
    omega
  all_goals rfl

end Writer

/-! ## A writer as the consumer sees it -/

/-- Writer `w`, with `consumed` its samples handed over so far, `position` the number of them and
`moved` the drops taken over. -/
structure Writer.Seen (k : ℕ) (w : Writer) (registered : Prop) (consumed : List RequestSample)
    (position moved : ℕ) : Prop where
  inv : w.Inv k
  fresh : ¬ registered → w = {}
  consumed_eq : consumed = w.accepted.take position
  read_le : w.readIndex ≤ position
  position_le : position ≤ w.accepted.length
  rejected : w.rejected.length = moved + w.dropped

namespace Writer

variable {k : ℕ} {w : Writer} {registered : Prop} {consumed : List RequestSample}
  {position moved : ℕ}

theorem Seen.recordStep (h : w.Seen k registered consumed position moved) (hreg : registered)
    (sample : RequestSample) :
    (w.recordStep (2 ^ k) sample).Seen k registered consumed position moved := by
  obtain ⟨rest, hrest⟩ := accepted_recordStep (w := w) (2 ^ k) sample
  have hrej := rejected_recordStep (w := w) (2 ^ k) sample
  have hold := h.rejected
  refine ⟨h.inv.recordStep sample, fun hn => absurd hreg hn, ?_, ?_, ?_, by omega⟩
  · rw [← hrest, List.take_append_of_le_length h.position_le]
    exact h.consumed_eq
  · rw [recordStep_readIndex]
    exact h.read_le
  · rw [← hrest, List.length_append]
    exact h.position_le.trans (Nat.le_add_right _ _)

/-- The slot still holds the next sample: the producer has not come round yet. -/
theorem Seen.consume (h : w.Seen k registered consumed position moved)
    (hlt : position < w.accepted.length) :
    w.Seen k registered (consumed ++ [w.ring (slot (2 ^ k - 1) position)]) (position + 1)
      moved := by
  refine ⟨h.inv, h.fresh, ?_, h.read_le.trans (Nat.le_succ _), hlt, h.rejected⟩
  rw [(h.inv.holds.mono h.read_le).read hlt, h.consumed_eq, List.take_concat_get' _ _ hlt]

theorem Seen.giveBack (h : w.Seen k registered consumed position moved) :
    Seen k { w with readIndex := position } registered consumed position moved := by
  refine ⟨h.inv.advance h.read_le h.position_le, fun hn => ?_, h.consumed_eq, le_rfl,
    h.position_le, h.rejected⟩
  -- An uncreated writer has recorded nothing.
  have hw := h.fresh hn
  have hle := h.position_le
  subst hw
  obtain rfl : position = 0 := Nat.le_zero.mp hle
  rfl

theorem Seen.exchange (h : w.Seen k registered consumed position moved) :
    Seen k { w with dropped := 0 } registered consumed position (moved + w.dropped) := by
  refine ⟨h.inv.clearDropped, fun hn => ?_, h.consumed_eq, h.read_le, h.position_le, h.rejected⟩
  have hw := h.fresh hn
  subst hw
  rfl

end Writer

/-! ## The collector -/

/-- How many samples of writer `i` the consumer is past, `read` being the writer's index. -/
def DrainPc.position {ι : Type*} [DecidableEq ι] (i : ι) (read : ℕ) : DrainPc ι → ℕ
  | .consume j r _ _ => if i = j then r else read
  | _ => read

namespace Collector

variable {ι : Type*} [DecidableEq ι]

/-- The consumer's copies of the indices of the writer it visits. -/
def DrainOk (c : Collector ι) : Prop :=
  match c.drain with
  | .loadWrite i r _ => r = (c.writers i).readIndex
  | .consume i r write _ => r ≤ write ∧ write ≤ (c.writers i).accepted.length
  | _ => True

structure Inv (k : ℕ) (c : Collector ι) : Prop where
  capacity : c.ringCapacity = 2 ^ k
  seen : ∀ i, (c.writers i).Seen k (i ∈ c.registered) (c.consumed i)
    (c.drain.position i (c.writers i).readIndex) (c.movedOf i)
  drainOk : c.DrainOk
  droppedTotal : c.totals.droppedSamples + c.inTransit = (c.moved.map (·.2)).sum
  counts : c.totals.Counts (c.handed.map (·.2))

variable {k : ℕ} {c : Collector ι}

theorem inv_init (k qpsMask startNs : ℕ) :
    Inv k { ringCapacity := 2 ^ k, qpsMask := qpsMask, startNs := startNs : Collector ι } :=
  ⟨rfl, fun _ => ⟨Writer.inv_fresh k, fun _ => rfl, rfl, le_rfl, le_rfl, rfl⟩, trivial, rfl,
    Totals.counts_nil⟩

/-! ### Steps -/

theorem Inv.createWriter (h : c.Inv k) (i : ι) : (c.createWriter i).Inv k := by
  unfold Collector.createWriter
  split_ifs with hi
  · exact h
  · refine ⟨h.capacity, fun j => ?_, h.drainOk, h.droppedTotal, h.counts⟩
    have hj := h.seen j
    exact ⟨hj.inv, fun hn => hj.fresh fun hmem => hn (List.mem_append_left _ hmem),
      hj.consumed_eq, hj.read_le, hj.position_le, hj.rejected⟩

theorem Inv.recordStep (h : c.Inv k) (i : ι) (sample : RequestSample) :
    (c.recordStep i sample).Inv k := by
  unfold Collector.recordStep
  split_ifs with hi
  · rw [h.capacity]
    refine ⟨rfl, fun j => ?_, ?_, h.droppedTotal, h.counts⟩
    · by_cases hj : j = i
      · subst hj
        simp only [Function.update_self, Writer.recordStep_readIndex]
        exact (h.seen j).recordStep hi sample
      · simp only [Function.update_of_ne hj]
        exact h.seen j
    · have hd := h.drainOk
      unfold DrainOk at hd ⊢
      dsimp only
      split
      case h_1 j r todo hc =>
        rw [hc] at hd
        by_cases hj : j = i
        · subst hj
          rw [Function.update_self, Writer.recordStep_readIndex]
          exact hd
        · rw [Function.update_of_ne hj]
          exact hd
      case h_2 j r write todo hc =>
        rw [hc] at hd
        by_cases hj : j = i
        · subst hj
          rw [Function.update_self]
          exact ⟨hd.1, hd.2.trans (Writer.accepted_recordStep _ _).length_le⟩
        · rw [Function.update_of_ne hj]
          exact hd
      case h_3 => trivial
  · exact h

theorem Inv.drainStep (h : c.Inv k) (nowNs : ℕ) : (c.drainStep nowNs).Inv k := by
  obtain ⟨hcap, hseen, hd, hdrop, hcounts⟩ := h
  unfold DrainOk at hd
  unfold inTransit at hdrop
  unfold Collector.drainStep
  cases hc : c.drain with
  | idle =>
    rw [hc] at hseen hdrop
    exact ⟨hcap, hseen, trivial, hdrop, hcounts⟩
  | nextWriter todo =>
    rw [hc] at hseen hdrop
    cases todo with
    | nil => exact ⟨hcap, hseen, trivial, hdrop, hcounts⟩
    | cons i todo => exact ⟨hcap, hseen, rfl, hdrop, hcounts⟩
  | loadWrite i r todo =>
    rw [hc] at hseen hdrop hd
    subst hd
    have hi := hseen i
    refine ⟨hcap, fun j => ?_, ⟨?_, hi.inv.write_eq.le⟩, hdrop, hcounts⟩
    · by_cases hj : j = i
      · subst hj
        simp only [DrainPc.position, if_true]
        exact hi
      · simp only [DrainPc.position, hj, if_false]
        exact hseen j
    · rw [hi.inv.write_eq]
      exact hi.inv.read_le
  | consume i r write todo =>
    rw [hc] at hseen hdrop hd
    obtain ⟨hle, hwrite⟩ := hd
    have hi := hseen i
    simp only [DrainPc.position, if_true] at hi
    by_cases hlt : r < write
    · simp only [hlt, if_true]
      refine ⟨hcap, fun j => ?_, ⟨hlt, hwrite⟩, hdrop, ?_⟩
      · by_cases hj : j = i
        · subst hj
          simp only [DrainPc.position, if_true, consumed, logOf_concat_self, hcap]
          exact hi.consume (hlt.trans_le hwrite)
        · have hold := hseen j
          simp only [DrainPc.position, hj, if_false, consumed] at hold
          simp only [DrainPc.position, hj, if_false, consumed, logOf_concat_ne _ hj]
          exact hold
      · rw [List.map_append]
        exact hcounts.record _ _ _
    · simp only [hlt, if_false]
      refine ⟨hcap, fun j => ?_, trivial, hdrop, hcounts⟩
      by_cases hj : j = i
      · subst hj
        simp only [Function.update_self]
        exact hi.giveBack
      · have hold := hseen j
        simp only [DrainPc.position, hj, if_false] at hold
        simp only [Function.update_of_ne hj]
        exact hold
  | exchange i todo =>
    rw [hc] at hseen hdrop
    refine ⟨hcap, fun j => ?_, trivial, ?_, hcounts⟩
    · by_cases hj : j = i
      · subst hj
        simp only [Function.update_self, movedOf, logOf_concat_self, List.sum_append,
          List.sum_singleton]
        exact (hseen j).exchange
      · simp only [Function.update_of_ne hj, movedOf, logOf_concat_ne _ hj]
        exact hseen j
    · simp only [add_zero] at hdrop
      simp only [inTransit, List.map_append, List.map_cons, List.map_nil, List.sum_append,
        List.sum_singleton, hdrop]
  | addDropped n todo =>
    rw [hc] at hseen hdrop
    refine ⟨hcap, hseen, trivial, ?_, hcounts.of_dropped _⟩
    simpa only [inTransit, add_zero] using hdrop

theorem Inv.act (h : c.Inv k) (a : Action ι) : (c.act a).Inv k := by
  cases a with
  | create i => exact h.createWriter i
  | record i sample => exact h.recordStep i sample
  | drain nowNs => exact h.drainStep nowNs

theorem Inv.run (h : c.Inv k) (actions : List (Action ι)) : (c.run actions).Inv k := by
  induction actions generalizing c with
  | nil => exact h
  | cons a actions ih => exact ih (h.act a)

/-! ## Main result -/

omit [DecidableEq ι] in
/-- What the constructor returns, when it does. -/
theorem new_eq {cfg : StatsConfig} {startNs : ℕ} {c₀ : Collector ι}
    (h : new cfg startNs = some c₀)
    (hk : normalizePowerOfTwo cfg.ringCapacity 1024 = some (2 ^ k)) :
    ∃ qpsMask, c₀ = { ringCapacity := 2 ^ k, qpsMask := qpsMask, startNs := startNs } := by
  unfold new at h
  rw [hk] at h
  cases hq : normalizePowerOfTwo cfg.qpsSlotCount 16 with
  | none => simp [hq] at h
  | some q =>
    simp only [hq, Option.some.injEq] at h
    exact ⟨q - 1, h.symm⟩

/-- Nothing is lost or repeated on the way of writer `i`'s samples through its ring. -/
structure Lossless (k : ℕ) (c : Collector ι) (i : ι) : Prop where
  /-- What was handed to `RecordFastPath` is a prefix of what `Record` accepted. -/
  fifo : c.consumed i <+: (c.writers i).accepted
  /-- The slot about to be written holds no sample that has still to be consumed. -/
  free : ∀ s write, (c.writers i).pc = .writeSlot s write →
    ∀ j, (c.consumed i).length ≤ j → j < (c.writers i).accepted.length →
      slot (2 ^ k - 1) j ≠ slot (2 ^ k - 1) write
  /-- Every accepted sample stays in its slot until it is consumed. -/
  kept : ∀ j s, (c.consumed i).length ≤ j → (c.writers i).accepted[j]? = some s →
    (c.writers i).ring (slot (2 ^ k - 1) j) = s
  /-- Between two drains the indices count the samples that wait. -/
  waiting : c.drain = .idle → (c.writers i).accepted.length =
    (c.consumed i).length + ((c.writers i).writeIndex - (c.writers i).readIndex)
  /-- Each finished call of `Record` was accepted or dropped. -/
  calls : (c.writers i).accepted.length + (c.movedOf i + (c.writers i).dropped)
    + (c.writers i).pc.sample.length = (c.writers i).calls.length

theorem Inv.lossless (h : c.Inv k) (i : ι) : Lossless k c i := by
  have hi := h.seen i
  have hle := hi.position_le
  have hread := hi.read_le
  have hlen : (c.consumed i).length = c.drain.position i (c.writers i).readIndex := by
    rw [hi.consumed_eq, List.length_take]
    omega
  refine ⟨?_, ?_, ?_, ?_, ?_⟩
  · rw [hi.consumed_eq]
    exact List.take_prefix _ _
  · intro s write hpc j hj hlt
    have hok := hi.inv.pc
    unfold Writer.PcOk at hok
    rw [hpc] at hok
    exact slot_ne (by omega) (by omega)
  · intro j s hj hs
    exact hi.inv.holds j s (by omega) hs
  · intro hidle
    have hw := hi.inv.write_eq
    rw [hidle] at hlen
    simp only [DrainPc.position] at hlen
    omega
  · have hperm := hi.inv.calls.length_eq
    have hrej := hi.rejected
    simp only [List.length_append] at hperm
    omega

/-- **The sample ring is a lossless FIFO.** Up to a configured capacity of `2 ^ 63`, in every
interleaving of the writers' `Record` steps with the steps of `Drain`, nothing is lost or repeated
for any writer, and `dropped_samples` is what was moved there. -/
theorem ring_fifo (cfg : StatsConfig) (startNs : ℕ) (h : cfg.ringCapacity ≤ 2 ^ 63) :
    ∃ k, normalizePowerOfTwo cfg.ringCapacity 1024 = some (2 ^ k) ∧ cfg.ringCapacity ≤ 2 ^ k ∧
      ∀ c₀ : Collector ι, new cfg startNs = some c₀ → ∀ actions : List (Action ι),
        (∀ i, Lossless k (c₀.run actions) i) ∧
        (c₀.run actions).totals.droppedSamples + (c₀.run actions).inTransit
          = ((c₀.run actions).moved.map (·.2)).sum := by
  obtain ⟨k, hk, hle, -⟩ := normalizePowerOfTwo_eq h (show 1024 ≤ 2 ^ 63 by decide)
  refine ⟨k, hk, hle, fun c₀ hnew actions => ?_⟩
  obtain ⟨qpsMask, rfl⟩ := new_eq hnew hk
  have hinv := (@inv_init ι _ k qpsMask startNs).run actions
  exact ⟨hinv.lossless, hinv.droppedTotal⟩

/-- A writer is created, records a sample and is drained while it records another. -/
def sampleActions : List (Action Bool) :=
  [.create true, .record true { latencyNs := 5 }, .record true {}, .record true {}, .record true {},
    .drain 1, .drain 1, .record true { latencyNs := 6 }, .drain 1, .drain 1, .record true {}]

theorem ring_fifo_sample :
    ∃ k, normalizePowerOfTwo 3000 1024 = some (2 ^ k) ∧ 3000 ≤ 2 ^ k ∧
      Lossless k (Collector.run { ringCapacity := 4096, qpsMask := 63, startNs := 7 } sampleActions)
        true := by
  obtain ⟨k, hk, hle, hrun⟩ := @ring_fifo Bool _ { ringCapacity := 3000 } 7 (by decide)
  exact ⟨k, hk, hle, (hrun _ rfl sampleActions).1 true⟩

end Collector

end TitanBench
