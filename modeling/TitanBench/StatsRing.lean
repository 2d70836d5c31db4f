import TitanBench.Lib.Ring
import TitanBench.Stats

/-!
# Statistics: the sample rings

Each writer has a ring with one producer, `Record`; `Drain` is the one consumer of all rings. A
step here is one access to memory that another thread may touch, with the thread's own work
around it. Indices are natural numbers, exact for fewer than `2 ^ 64` records.

* `Writer.recordStep` — the next step of the writer's `Record`.
* `Collector.drainStep` — the next step of `Drain`.
* `Collector.act`, `Collector.run` — any interleaving, with writers created at any time.

`calls`, `accepted`, `rejected`, `handed` and `moved` are logs of what happened; no step reads
them.
-/

namespace TitanBench

open RingBuffer

/-! ## Record -/

/-- Where the producer is in `Record`. -/
inductive RecordPc
  | idle
  | loadRead (sample : RequestSample) (write : ℕ)
  | drop (sample : RequestSample)
  | writeSlot (sample : RequestSample) (write : ℕ)
  | storeWrite (sample : RequestSample) (write : ℕ)
  deriving DecidableEq

/-- The sample of the call in progress. -/
def RecordPc.sample : RecordPc → List RequestSample
  | .idle => []
  | .loadRead s _ | .drop s | .writeSlot s _ | .storeWrite s _ => [s]

structure Writer where
  ring : ℕ → RequestSample := fun _ => {}
  writeIndex : ℕ := 0
  readIndex : ℕ := 0
  dropped : ℕ := 0
  pc : RecordPc := .idle
  calls : List RequestSample := []
  accepted : List RequestSample := []
  rejected : List RequestSample := []

/-- The next step of the producer: it starts a call for `sample` when it is idle and goes on with
the call in progress otherwise. -/
def Writer.recordStep (capacity : ℕ) (sample : RequestSample) (w : Writer) : Writer :=
  match w.pc with
  | .idle => { w with pc := .loadRead sample w.writeIndex, calls := w.calls ++ [sample] }
  | .loadRead s write =>
    if write - w.readIndex ≥ capacity then { w with pc := .drop s }
    else { w with pc := .writeSlot s write }
  | .drop s =>
    { w with dropped := w.dropped + 1, pc := .idle, rejected := w.rejected ++ [s] }
  | .writeSlot s write =>
    { w with
      ring := Function.update w.ring (slot (capacity - 1) write) s
      pc := .storeWrite s write }
  | .storeWrite s write =>
    { w with writeIndex := write + 1, pc := .idle, accepted := w.accepted ++ [s] }

/-! ## The collector -/

/-- Where the consumer is in `Drain`; `todo` are the writers it has still to visit. -/
inductive DrainPc (ι : Type*)
  | idle
  | nextWriter (todo : List ι)
  | loadWrite (i : ι) (r : ℕ) (todo : List ι)
  | consume (i : ι) (r write : ℕ) (todo : List ι)
  | exchange (i : ι) (todo : List ι)
  | addDropped (n : ℕ) (todo : List ι)
  deriving DecidableEq

structure Collector (ι : Type*) where
  ringCapacity : ℕ
  qpsMask : ℕ
  startNs : ℕ := 0
  writers : ι → Writer := fun _ => {}
  registered : List ι := []
  totals : Totals := {}
  drain : DrainPc ι := .idle
  handed : List (ι × RequestSample) := []
  moved : List (ι × ℕ) := []

namespace Collector

variable {ι : Type*} [DecidableEq ι]

/-- The constructor. It does not return when a capacity is too large to be rounded. -/
def new (cfg : StatsConfig) (startNs : ℕ) : Option (Collector ι) :=
  match normalizePowerOfTwo cfg.ringCapacity 1024, normalizePowerOfTwo cfg.qpsSlotCount 16 with
  | some ringCapacity, some qpsSlotCount =>
    some { ringCapacity := ringCapacity, qpsMask := qpsSlotCount - 1, startNs := startNs }
  | _, _ => none

/-- `CreateWriter`, under the collector's mutex. -/
def createWriter (c : Collector ι) (i : ι) : Collector ι :=
  if i ∈ c.registered then c else { c with registered := c.registered ++ [i] }

/-- One step of writer `i`'s `Record`, which does nothing without a created writer. -/
def recordStep (c : Collector ι) (i : ι) (sample : RequestSample) : Collector ι :=
  if i ∈ c.registered then
    { c with
      writers := Function.update c.writers i ((c.writers i).recordStep c.ringCapacity sample) }
  else c

/-- The next step of `Drain`, which starts when the consumer is idle. -/
def drainStep (c : Collector ι) (nowNs : ℕ) : Collector ι :=
  match c.drain with
  | .idle => { c with drain := .nextWriter c.registered }
  | .nextWriter [] => { c with drain := .idle }
  | .nextWriter (i :: todo) => { c with drain := .loadWrite i (c.writers i).readIndex todo }
  | .loadWrite i r todo => { c with drain := .consume i r (c.writers i).writeIndex todo }
  | .consume i r write todo =>
    if r < write then
      let sample := (c.writers i).ring (slot (c.ringCapacity - 1) r)
      { c with
        totals := recordFastPath c.qpsMask nowNs sample c.totals
        drain := .consume i (r + 1) write todo
        handed := c.handed ++ [(i, sample)] }
    else
      { c with
        writers := Function.update c.writers i { c.writers i with readIndex := r }
        drain := .exchange i todo }
  | .exchange i todo =>
    { c with
      writers := Function.update c.writers i { c.writers i with dropped := 0 }
      drain := .addDropped (c.writers i).dropped todo
      moved := c.moved ++ [(i, (c.writers i).dropped)] }
  | .addDropped n todo =>
    { c with
      totals := { c.totals with droppedSamples := c.totals.droppedSamples + n }
      drain := .nextWriter todo }

/-- What one thread can do next. -/
inductive Action (ι : Type*)
  | create (i : ι)
  | record (i : ι) (sample : RequestSample)
  | drain (nowNs : ℕ)

def act (c : Collector ι) : Action ι → Collector ι
  | .create i => c.createWriter i
  | .record i sample => c.recordStep i sample
  | .drain nowNs => c.drainStep nowNs

def run (c : Collector ι) (actions : List (Action ι)) : Collector ι := actions.foldl act c

end Collector

/-! ## What the logs say about one writer -/

/-- The entries of a common log that belong to `i`. -/
def logOf {ι β : Type*} [DecidableEq ι] (log : List (ι × β)) (i : ι) : List β :=
  (log.filter (·.1 = i)).map (·.2)

section Logs

variable {ι β : Type*} [DecidableEq ι]

@[simp] theorem logOf_concat_self (log : List (ι × β)) (i : ι) (b : β) :
    logOf (log ++ [(i, b)]) i = logOf log i ++ [b] := by
  simp [logOf, List.filter_append]

theorem logOf_concat_ne (log : List (ι × β)) {i j : ι} (h : j ≠ i) (b : β) :
    logOf (log ++ [(i, b)]) j = logOf log j := by
  simp [logOf, List.filter_append, h.symm]

end Logs

namespace Collector

variable {ι : Type*} [DecidableEq ι]

/-- The samples of writer `i` handed to `RecordFastPath`, in order. -/
def consumed (c : Collector ι) (i : ι) : List RequestSample := logOf c.handed i

/-- How many drops of writer `i` a drain has taken over. -/
def movedOf (c : Collector ι) (i : ι) : ℕ := (logOf c.moved i).sum

/-- Drops a drain has taken over and not yet added to `dropped_samples`. -/
def inTransit (c : Collector ι) : ℕ :=
  match c.drain with
  | .addDropped n _ => n
  | _ => 0

end Collector

end TitanBench
