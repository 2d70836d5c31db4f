import Mathlib.Data.Fintype.BigOperators
import TitanBench.EngineMoves
import TitanBench.StatsDrain

/-!
# The counters and the statistics agree

Each request is counted twice: in the engine's counters, and by a sample recorded with the
collector, which may drop it.

* `Balanced` — what every step hands over counts as many requests as it records samples.
* `WriterOk` — a thread records one sample at a time, with a writer that was created.
* `Runs.account` — in every state, the counters and what is still owed match the calls of `Record`
  and the samples still to be recorded.
* `MainOk` — what the main thread has collected for its report.
* `report_conserved` — what follows for the final report.
-/

namespace TitanBench

open Threads

variable {n : ℕ}

/-! ## What is counted and what is recorded -/

/-- The counters that count requests, each with the samples that belong to it. -/
inductive Tally
  | all
  | success
  | failure

def Tally.counter : Tally → Counter
  | .all => .completed
  | .success => .succeeded
  | .failure => .failed

def Tally.holds : Tally → RequestSample → Bool
  | .all => fun _ => true
  | .success => (·.success)
  | .failure => (!·.success)

def Op.records (k : Tally) : Op → ℕ
  | .record s => if k.holds s then 1 else 0
  | _ => 0

/-- The samples of `k` that the operations have still to record. -/
abbrev toRecord (k : Tally) (ops : List Op) : ℕ := weigh (Op.records k) ops

/-- The weight of a sample that is recorded. -/
def Op.sampleWeight (g : RequestSample → ℕ) : Op → ℕ
  | .record s => g s
  | _ => 0

theorem Op.records_eq (k : Tally) :
    Op.records k = Op.sampleWeight fun s => if k.holds s then 1 else 0 := by
  funext op
  cases op <;> rfl

@[simp] theorem Op.sampleWeight_add (g : RequestSample → ℕ) (c : Counter) (m : ℕ) :
    Op.sampleWeight g (.add c m) = 0 := rfl

@[simp] theorem Op.sampleWeight_storeStop (g : RequestSample → ℕ) :
    Op.sampleWeight g .storeStop = 0 := rfl

@[simp] theorem Op.sampleWeight_record (g : RequestSample → ℕ) (s : RequestSample) :
    Op.sampleWeight g (.record s) = g s := rfl

@[simp] theorem Op.sampleWeight_recording (g : RequestSample → ℕ) :
    Op.sampleWeight g .recording = 0 := rfl

@[simp] theorem Op.records_add (k : Tally) (c : Counter) (m : ℕ) :
    Op.records k (.add c m) = 0 := rfl

@[simp] theorem Op.records_storeStop (k : Tally) : Op.records k .storeStop = 0 := rfl

@[simp] theorem Op.records_record (k : Tally) (s : RequestSample) :
    Op.records k (.record s) = if k.holds s then 1 else 0 := rfl

@[simp] theorem Op.records_recording (k : Tally) : Op.records k .recording = 0 := rfl

theorem Tally.counter_ne_started (k : Tally) : k.counter ≠ .started := by
  cases k <;> simp [Tally.counter]

/-- The operations count as many requests as they record samples, for each counter. -/
def Balanced (ops : List Op) : Prop := ∀ k : Tally, owed k.counter ops = toRecord k ops

theorem balanced_nil : Balanced [] := fun _ => rfl

theorem balanced_storeStop : Balanced [.storeStop] := fun _ => rfl

theorem Balanced.append {ops ops' : List Op} (h : Balanced ops) (h' : Balanced ops') :
    Balanced (ops ++ ops') := by
  intro k
  simp only [weigh_append]
  exact congrArg₂ (· + ·) (h k) (h' k)

/-- An update that counts no request. -/
theorem Balanced.cons {ops : List Op} (h : Balanced ops) {c : Counter} (m : ℕ)
    (hc : ∀ k : Tally, c ≠ k.counter) : Balanced (.add c m :: ops) := by
  intro k
  have hk := h k
  simp only [weigh_cons, Op.adds_add, Op.records_add, if_neg (hc k), Nat.zero_add]
  exact hk

theorem bytesSent_ne (k : Tally) : Counter.bytesSent ≠ k.counter := by
  cases k <;> simp [Tally.counter]

theorem bytesReceived_ne (k : Tally) : Counter.bytesReceived ≠ k.counter := by
  cases k <;> simp [Tally.counter]

theorem retried_ne (k : Tally) : Counter.retried ≠ k.counter := by
  cases k <;> simp [Tally.counter]

namespace EventWorker

variable {cfg : Config} {i : Fin n} {env : Env} {sh : Shared n} {w : EventWorker}
  {r : Shared n × List Op × EventWorker}

theorem balanced_sendFailedOps (beginNs : ℕ) (ec : NetErrc) :
    Balanced (sendFailedOps beginNs ec) := by
  intro k
  cases k <;> simp [sendFailedOps, Tally.counter, Tally.holds]

theorem balanced_sendDoneOps (beginNs endNs size : ℕ) :
    Balanced (sendDoneOps beginNs endNs size) := by
  intro k
  cases k <;> simp [sendDoneOps, Tally.counter, Tally.holds]

theorem balanced_errorOps (cfg : Config) (env : Env) (ec : NetErrc) (old : Session) :
    Balanced (errorOps cfg env ec old) := by
  intro k
  unfold errorOps
  split_ifs
  · cases k <;> simp [Tally.counter, Tally.holds]
  · rfl

theorem balanced_dataEvent (cfg : Config) (env : Env) (data : Bytes) (old : Session) :
    Balanced (dataEvent cfg env data old).1 := by
  have hd := dataEvent_digested cfg env data old
  generalize dataEvent cfg env data old = r at hd
  cases hd with
  | other | awaited => exact balanced_nil
  | rejected =>
    intro k
    cases k <;> simp [parseErrorOps, Tally.counter, Tally.holds]
  | finished =>
    intro k
    unfold responseOps
    dsimp only
    split_ifs with hok <;> cases k <;> simp [Tally.counter, Tally.holds, hok]

theorem Move.balanced (hm : w.Move cfg i env sh r) : Balanced r.2.1 := by
  cases hm with
  | notStarted | notOpened | pollFailed => exact balanced_storeStop
  | sent => exact (balanced_sendDoneOps _ _ _).cons _ bytesSent_ne
  | requested => exact balanced_nil.cons _ bytesSent_ne
  | sendFailed => exact balanced_sendFailedOps _ _
  | errored => exact balanced_errorOps _ _ _ _
  | received => exact (balanced_dataEvent _ _ _ _).cons _ bytesReceived_ne
  | retried => exact balanced_nil.cons _ retried_ne
  | _ => exact balanced_nil

end EventWorker

namespace Slot

variable {cfg : Config} {i : Fin n} {env : Env} {sh : Shared n} {s : Slot}
  {r : Shared n × List Op × Slot}

theorem balanced_giveUpOps (nowNs : ℕ) : Balanced (giveUpOps nowNs) := by
  intro k
  cases k <;> simp [giveUpOps, Tally.counter, Tally.holds]

theorem balanced_resultOps (nowNs : ℕ) (result : Result) (status : ℤ) (ok : Bool) :
    Balanced (resultOps nowNs result status ok) := by
  intro k
  cases ok <;> cases k <;> simp [resultOps, Tally.counter, Tally.holds]

theorem Move.balanced (hm : s.Move cfg i env sh r) : Balanced r.2.1 := by
  cases hm with
  | notStarted => exact balanced_storeStop
  | retried => exact balanced_nil.cons _ retried_ne
  | gaveUp => exact balanced_giveUpOps _
  | performed client result status ok retry hc hops =>
    refine (balanced_resultOps _ _ _ _).append ?_
    rcases hops with rfl | rfl
    · exact balanced_nil
    · exact balanced_nil.cons _ retried_ne
  | _ => exact balanced_nil

end Slot

/-! ## Writers -/

namespace Collector

variable {c c' : Collector (Fin n)} {i : Option (Fin n)}

theorem Turn.inv {k : ℕ} (h : c.Turn i c') (hinv : c.Inv k) : c'.Inv k := by
  cases h with
  | same => exact hinv
  | create i => exact hinv.createWriter i
  | record i s => exact hinv.recordStep i s
  | drain nowNs => exact hinv.drainStep nowNs

theorem createWriter_writers (c : Collector (Fin n)) (i : Fin n) :
    (c.createWriter i).writers = c.writers := by
  unfold Collector.createWriter
  split_ifs <;> rfl

theorem mem_createWriter (c : Collector (Fin n)) (i : Fin n) :
    i ∈ (c.createWriter i).registered := by
  unfold Collector.createWriter
  split_ifs with h
  · exact h
  · simp

/-- A drain leaves to the writers what is theirs. -/
theorem drainStep_writers (c : Collector (Fin n)) (nowNs : ℕ) (k : Fin n) :
    ((c.drainStep nowNs).writers k).pc = (c.writers k).pc ∧
      ((c.drainStep nowNs).writers k).calls = (c.writers k).calls := by
  have hupdate : ∀ (i : Fin n) (w : Writer), w.pc = (c.writers i).pc →
      w.calls = (c.writers i).calls →
      (Function.update c.writers i w k).pc = (c.writers k).pc ∧
        (Function.update c.writers i w k).calls = (c.writers k).calls := by
    intro i w hpc hcalls
    by_cases hk : k = i
    · subst hk
      rw [Function.update_self]
      exact ⟨hpc, hcalls⟩
    · rw [Function.update_of_ne hk]
      exact ⟨rfl, rfl⟩
  unfold Collector.drainStep
  cases c.drain with
  | nextWriter todo => cases todo <;> exact ⟨rfl, rfl⟩
  | consume i r write todo =>
    dsimp only
    split_ifs
    · exact ⟨rfl, rfl⟩
    · exact hupdate i _ rfl rfl
  | exchange i todo => exact hupdate i _ rfl rfl
  | _ => exact ⟨rfl, rfl⟩

theorem drainStep_registered (c : Collector (Fin n)) (nowNs : ℕ) :
    (c.drainStep nowNs).registered = c.registered := by
  unfold Collector.drainStep
  cases c.drain with
  | nextWriter todo => cases todo <;> rfl
  | consume i r write todo => dsimp only; split_ifs <;> rfl
  | _ => rfl

theorem recordStep_registered (c : Collector (Fin n)) (i : Fin n) (s : RequestSample) :
    (c.recordStep i s).registered = c.registered := by
  unfold Collector.recordStep
  split_ifs <;> rfl

theorem recordStep_ne (c : Collector (Fin n)) {i k : Fin n} (h : k ≠ i) (s : RequestSample) :
    (c.recordStep i s).writers k = c.writers k := by
  unfold Collector.recordStep
  split_ifs
  · exact Function.update_of_ne h _ _
  · rfl

theorem recordStep_self {c : Collector (Fin n)} {i : Fin n} (h : i ∈ c.registered)
    (s : RequestSample) :
    (c.recordStep i s).writers i = (c.writers i).recordStep c.ringCapacity s := by
  unfold Collector.recordStep
  rw [if_pos h]
  exact Function.update_self _ _ _

theorem Turn.registered (h : c.Turn i c') {k : Fin n} (hk : k ∈ c.registered) :
    k ∈ c'.registered := by
  cases h with
  | same => exact hk
  | create i =>
    unfold Collector.createWriter
    split_ifs
    · exact hk
    · exact List.mem_append_left _ hk
  | record i s => rwa [recordStep_registered]
  | drain nowNs => rwa [drainStep_registered]

/-- Only the main thread drains. -/
theorem Turn.drain_eq {i : Fin n} (h : c.Turn (some i) c') : c'.drain = c.drain := by
  cases h with
  | same => rfl
  | create i =>
    unfold Collector.createWriter
    split_ifs <;> rfl
  | record i s =>
    unfold Collector.recordStep
    split_ifs <;> rfl

/-- Another thread leaves a writer's call alone. -/
theorem Turn.other (h : c.Turn i c') {k : Fin n} (hk : i ≠ some k) :
    (c'.writers k).pc = (c.writers k).pc ∧ (c'.writers k).calls = (c.writers k).calls := by
  cases h with
  | same => exact ⟨rfl, rfl⟩
  | create i => rw [createWriter_writers]; exact ⟨rfl, rfl⟩
  | record i s =>
    rw [recordStep_ne c (fun heq => hk (congrArg some heq.symm)) s]
    exact ⟨rfl, rfl⟩
  | drain nowNs => exact drainStep_writers c nowNs k

/-- The calls of `Record` for samples of `k`, by all writers. -/
def callsOf (c : Collector (Fin n)) (k : Tally) : ℕ := ∑ i, (c.writers i).calls.countP k.holds

/-- The total weight of the calls of `Record`, by all writers. -/
def callsSum (c : Collector (Fin n)) (g : RequestSample → ℕ) : ℕ :=
  ∑ i, ((c.writers i).calls.map g).sum

theorem callsOf_eq (c : Collector (Fin n)) (k : Tally) :
    c.callsOf k = c.callsSum fun s => if k.holds s then 1 else 0 :=
  Finset.sum_congr rfl fun _ _ => countP_eq_sum _ _

variable (g : RequestSample → ℕ)

/-- A call that begins. -/
theorem callsSum_begin {i : Fin n} (hreg : i ∈ c.registered) (hpc : (c.writers i).pc = .idle)
    (s : RequestSample) : (c.recordStep i s).callsSum g = c.callsSum g + g s := by
  unfold callsSum
  rw [← Finset.add_sum_erase _ _ (Finset.mem_univ i),
    ← Finset.add_sum_erase _ _ (Finset.mem_univ i)]
  have hself : ((c.recordStep i s).writers i).calls = (c.writers i).calls ++ [s] := by
    rw [recordStep_self hreg]
    unfold Writer.recordStep
    rw [hpc]
  have hrest : ∑ j ∈ Finset.univ.erase i, (((c.recordStep i s).writers j).calls.map g).sum
      = ∑ j ∈ Finset.univ.erase i, ((c.writers j).calls.map g).sum :=
    Finset.sum_congr rfl fun j hj => by rw [recordStep_ne c (Finset.ne_of_mem_erase hj) s]
  rw [hself, hrest, List.map_append, List.sum_append, List.map_singleton, List.sum_singleton]
  omega

/-- A call that goes on. -/
theorem callsSum_continue {i : Fin n} (hpc : (c.writers i).pc ≠ .idle) (s : RequestSample) :
    (c.recordStep i s).callsSum g = c.callsSum g := by
  unfold callsSum
  refine Finset.sum_congr rfl fun j _ => ?_
  by_cases hj : j = i
  · subst hj
    unfold Collector.recordStep
    split_ifs
    · show (((Function.update _ _ _ : Fin n → Writer) j).calls.map g).sum = _
      rw [Function.update_self]
      unfold Writer.recordStep
      cases hp : (c.writers j).pc with
      | idle => exact absurd hp hpc
      | loadRead sample write => dsimp only; split_ifs <;> rfl
      | _ => rfl
    · rfl
  · rw [recordStep_ne c hj]

theorem callsSum_congr (h : ∀ i, (c'.writers i).calls = (c.writers i).calls) :
    c'.callsSum g = c.callsSum g :=
  Finset.sum_congr rfl fun i _ => by rw [h i]

end Collector

/-! ## Threads and their writers -/

/-- The worker has a writer. -/
def Body.Enrolled : Body → Prop
  | .main _ => False
  | .event w => w.ctl.phase = .during
  | .slot s => s.ctl ≠ .start

namespace Engine

/-- Thread `i` finishes the call of `Record` it is in, and it records with a created writer. -/
structure WriterOk (i : Fin n) (sh : Shared n) (t : Thread) : Prop where
  busy : (sh.stats.writers i).pc ≠ .idle → ∃ rest, t.ops = .recording :: rest
  enrolled : t.body.Enrolled ∨ (∃ s, .record s ∈ t.ops) → i ∈ sh.stats.registered

variable {cfg : Config} {env : Env} {sh : Shared n}

theorem enrolled_event {i : Fin n} {w : EventWorker} {r : Shared n × List Op × EventWorker}
    (hm : w.Move cfg i env sh r) (h : r.2.2.ctl.phase = .during ∨ ∃ s, .record s ∈ r.2.1) :
    w.ctl.phase = .during ∨ r.1.stats = sh.stats.createWriter i := by
  cases hm with
  | goes hg =>
    rcases h with h | ⟨s, hs⟩
    · exact .inl (hg.phase.symm.trans h)
    · cases hs
  | started => exact .inr rfl
  | notStarted => simp [EventCtl.phase] at h
  | opened _ hopens => exact .inl hopens.phase.1
  | notOpened hopens => exact .inl hopens.phase.1
  | stopped hc | acquires hc | refused hc | granted hc | sent hc | requested hc | sendFailed hc
  | polled hc | pollFailed hc | errored hc | received hc | retried hc | givenUp hc | closed hc =>
    exact .inl (by rw [hc]; rfl)
  | waits _ hc | waited _ hc => exact .inl (by rw [hc]; rfl)
  | returned => simp [EventCtl.phase, EventWorker.goto] at h

theorem enrolled_slot {i : Fin n} {s : Slot} {r : Shared n × List Op × Slot}
    (hm : s.Move cfg i env sh r) (h : r.2.2.ctl ≠ .start ∨ ∃ s, .record s ∈ r.2.1) :
    s.ctl ≠ .start ∨ r.1.stats = sh.stats.createWriter i := by
  by_cases hc : s.ctl = .start
  · right
    cases hm with
    | started | notStarted => rfl
    | goes hg => cases hg with
      | stopped hctl | enter hctl | stay hctl => rw [hc] at hctl; cases hctl
    | acquires hctl | refused hctl | granted hctl | returned hctl =>
      rw [hc] at hctl
      cases hctl
    | connected _ hctl | retried _ hctl | gaveUp _ hctl | waits _ hctl | waited _ hctl =>
      rw [hc] at hctl
      cases hctl
    | performed _ _ _ _ _ hctl =>
      rw [hc] at hctl
      cases hctl
  · exact .inl hc

theorem writers_event {i : Fin n} {w : EventWorker} {r : Shared n × List Op × EventWorker}
    (hm : w.Move cfg i env sh r) : r.1.stats.writers = sh.stats.writers := by
  cases hm with
  | started => exact Collector.createWriter_writers _ _
  | _ => rfl

theorem writers_slot {i : Fin n} {s : Slot} {r : Shared n × List Op × Slot}
    (hm : s.Move cfg i env sh r) : r.1.stats.writers = sh.stats.writers := by
  cases hm with
  | started | notStarted => exact Collector.createWriter_writers _ _
  | _ => rfl

theorem writerOk_op {i : Fin n} {op : Op} {rest : List Op} {body : Body} {r : Shared n × List Op}
    (hx : op.Exec sh rest (some i) r) (h : WriterOk i sh ⟨op :: rest, body⟩) :
    WriterOk i r.1 ⟨r.2, body⟩ := by
  have hreg := hx.turn.registered (k := i)
  have hless : ∀ {ops : List Op}, (∀ s, Op.record s ∈ ops → Op.record s ∈ rest) →
      body.Enrolled ∨ (∃ s, .record s ∈ ops) → i ∈ r.1.stats.registered := fun hsub hops =>
    hreg (h.enrolled (hops.imp_right fun ⟨s, hs⟩ => ⟨s, List.mem_cons_of_mem _ (hsub s hs)⟩))
  have hhead : (sh.stats.writers i).pc ≠ .idle → op = .recording := by
    intro hpc
    obtain ⟨rest', hrest⟩ := h.busy hpc
    exact (List.cons.inj hrest).1
  cases hx with
  | add _ c k => exact ⟨fun hpc => (nomatch hhead hpc), hless fun s hs => hs⟩
  | storeStop => exact ⟨fun hpc => (nomatch hhead hpc), hless fun s hs => hs⟩
  | record _ s => exact ⟨fun _ => ⟨rest, rfl⟩, hless fun s hs => by simpa using hs⟩
  | recording _ hpc => exact ⟨fun _ => ⟨rest, rfl⟩, hless fun s hs => by simpa using hs⟩
  | recorded _ hpc => exact ⟨fun hne => absurd hpc hne, hless fun s hs => hs⟩

/-- A step of the thread's own code, which leaves the calls of `Record` alone. -/
theorem WriterOk.moved {i : Fin n} {body : Body} (h : WriterOk i sh ⟨[], body⟩) {sh' : Shared n}
    {t' : Thread} (hwriters : sh'.stats.writers = sh.stats.writers)
    (hturn : sh.stats.Turn (some i) sh'.stats)
    (henr : t'.body.Enrolled ∨ (∃ s, .record s ∈ t'.ops) →
      body.Enrolled ∨ sh'.stats = sh.stats.createWriter i) : WriterOk i sh' t' := by
  constructor
  · intro hpc
    rw [hwriters] at hpc
    obtain ⟨rest, hrest⟩ := h.busy hpc
    cases hrest
  · intro ht
    rcases henr ht with hold | hnew
    · exact hturn.registered (h.enrolled (.inl hold))
    · rw [hnew]
      exact Collector.mem_createWriter _ _

theorem Move.writerOk {i : Fin n} {t : Thread} {r : Shared n × Thread}
    (hm : Move cfg env sh (some i) t r) (h : WriterOk i sh t) : WriterOk i r.1 r.2 := by
  cases hm with
  | op body hx => exact writerOk_op hx h
  | event hm => exact h.moved (writers_event hm) hm.turn (enrolled_event hm)
  | slot hm => exact h.moved (writers_slot hm) hm.turn (enrolled_slot hm)
  | stay => exact h

/-- The steps of other threads. -/
theorem WriterOk.other {i : Fin n} {t : Thread} (h : WriterOk i sh t) {j : Option (Fin n)}
    {sh' : Shared n} (ht : sh.stats.Turn j sh'.stats) (hj : j ≠ some i) : WriterOk i sh' t :=
  ⟨fun hpc => h.busy ((ht.other hj).1 ▸ hpc), fun henr => ht.registered (h.enrolled henr)⟩

/-! ## The account -/

/-- The main thread only stores the stop. -/
def MainOps (ops : List Op) : Prop := ∀ op ∈ ops, op = .storeStop

theorem account_op {i : Option (Fin n)} {op : Op} {rest : List Op} {body : Body}
    {r : Shared n × List Op} (hx : op.Exec sh rest i r)
    (hw : ∀ k, i = some k → WriterOk k sh ⟨op :: rest, body⟩)
    (hmain : i = none → MainOps (op :: rest)) (g : RequestSample → ℕ) :
    r.1.stats.callsSum g + weigh (Op.sampleWeight g) r.2
      = sh.stats.callsSum g + weigh (Op.sampleWeight g) (op :: rest) := by
  cases hx with
  | add | storeStop | recorded => simp
  | record i s =>
    have hok := hw i rfl
    have hpc : (sh.stats.writers i).pc = .idle := by
      by_contra hpc
      obtain ⟨rest', hrest⟩ := hok.busy hpc
      cases hrest
    have hreg := hok.enrolled (.inr ⟨s, List.mem_cons_self⟩)
    simp only [Collector.callsSum_begin g hreg hpc, weigh_cons, Op.sampleWeight_recording,
      Op.sampleWeight_record]
    omega
  | recording i hpc => simp only [Collector.callsSum_continue g hpc, weigh_cons]
  | main op hadd hstop => exact absurd (hmain rfl op List.mem_cons_self) hstop

/-- A thread's own code leaves the calls of `Record` to the operations. -/
theorem Move.calls {i : Option (Fin n)} {t : Thread} {r : Shared n × Thread}
    (hm : Move cfg env sh i t r) (hops : t.ops = []) (j : Fin n) :
    (r.1.stats.writers j).calls = (sh.stats.writers j).calls := by
  cases hm with
  | op => cases hops
  | @main m r hr =>
    have hf := mainStep_frame cfg env sh m
    rw [← hr] at hf
    exact (hf.turn.other (fun h => nomatch h)).2
  | event hm => rw [writers_event hm]
  | slot hm => rw [writers_slot hm]
  | stay => rfl

/-- A thread's own code leaves the counters but `started` to the operations. -/
theorem Move.counter_eq {i : Option (Fin n)} {t : Thread} {r : Shared n × Thread}
    (hm : Move cfg env sh i t r) (hops : t.ops = []) {k : Counter} (hk : k ≠ .started) :
    r.1.counters k = sh.counters k := by
  cases hm with
  | op => cases hops
  | @main m r hr =>
    have hf := mainStep_frame cfg env sh m
    rw [← hr] at hf
    exact congrFun hf.counters k
  | event hm => exact hm.counters hk
  | slot hm => exact hm.counters hk
  | stay => rfl

/-- A counter and the samples stay in step, up to what the operations that are handed over add to
the counter beyond their samples. -/
theorem Move.account_gain {i : Option (Fin n)} {t : Thread} {r : Shared n × Thread}
    (hm : Move cfg env sh i t r) (hw : ∀ k, i = some k → WriterOk k sh t)
    (hmain : i = none → MainOps t.ops) {k : Counter} (hk : k ≠ .started) (g : RequestSample → ℕ)
    {gain : ℕ}
    (hown : t.ops = [] → owed k r.2.ops = weigh (Op.sampleWeight g) r.2.ops + gain)
    (hnone : t.ops ≠ [] → gain = 0) :
    r.1.counters k + owed k r.2.ops + (sh.stats.callsSum g + weigh (Op.sampleWeight g) t.ops)
      = sh.counters k + owed k t.ops
        + (r.1.stats.callsSum g + weigh (Op.sampleWeight g) r.2.ops) + gain := by
  by_cases hops : t.ops = []
  · have hcalls := Collector.callsSum_congr g (hm.calls hops)
    rw [hm.counter_eq hops hk, hcalls, hown hops, hops]
    simp only [weigh_nil]
    omega
  · rw [hnone hops]
    cases hm with
    | op body hx =>
      have hpays := hx.pays k
      have hcalls := account_op hx hw hmain g
      dsimp only
      omega
    | main | event | slot => exact absurd rfl hops
    | stay => rfl

theorem Move.balanced {i : Option (Fin n)} {t : Thread} {r : Shared n × Thread}
    (hm : Move cfg env sh i t r) (hops : t.ops = []) : Balanced r.2.ops := by
  cases hm with
  | op => cases hops
  | @main m r hr =>
    have hf := mainStep_frame cfg env sh m
    rw [← hr] at hf
    rcases hf.ops with hops | hops
    · exact hops ▸ balanced_nil
    · exact hops ▸ balanced_storeStop
  | event hm => exact hm.balanced
  | slot hm => exact hm.balanced
  | stay => exact hops ▸ balanced_nil

/-- Counters and calls stay in step: each step changes both sides by the same amount. -/
theorem Move.account {i : Option (Fin n)} {t : Thread} {r : Shared n × Thread}
    (hm : Move cfg env sh i t r) (hw : ∀ k, i = some k → WriterOk k sh t)
    (hmain : i = none → MainOps t.ops) (k : Tally) :
    r.1.counters k.counter + owed k.counter r.2.ops + (sh.stats.callsOf k + toRecord k t.ops)
      = sh.counters k.counter + owed k.counter t.ops
        + (r.1.stats.callsOf k + toRecord k r.2.ops) := by
  have hstep := hm.account_gain hw hmain k.counter_ne_started (fun s => if k.holds s then 1 else 0)
    (fun hops => (hm.balanced hops k).trans (by rw [toRecord, Op.records_eq]; rfl)) fun _ => rfl
  rw [← Op.records_eq] at hstep
  rw [Collector.callsOf_eq, Collector.callsOf_eq]
  exact hstep

theorem Move.mainOps {t : Thread} {r : Shared n × Thread} (hm : Move cfg env sh none t r)
    (h : MainOps t.ops) : MainOps r.2.ops := by
  cases hm with
  | op body hx =>
    have hrest := fun op hop => h op (List.mem_cons_of_mem _ hop)
    cases hx <;> exact hrest
  | @main m r hr =>
    have hf := mainStep_frame cfg env sh m
    rw [← hr] at hf
    intro op hop
    rcases hf.ops with hops | hops <;> rw [hops] at hop
    · cases hop
    · exact List.mem_singleton.mp hop
  | stay => exact h

variable {beginNs : ℕ} {c : Conf cfg.threadCount}

theorem Runs.mainOps (h : Runs cfg beginNs c) : MainOps (c.locals none).ops := by
  refine h.local_invariant (J := fun t => MainOps t.ops) none ?_ ?_
  · exact fun op hop => nomatch hop
  · intro c e _ _ ht
    exact (step_move cfg none e c.shared (c.locals none)).mainOps ht

theorem Runs.writerOk (h : Runs cfg beginNs c) (i : Fin cfg.threadCount) :
    WriterOk i c.shared (c.locals (some i)) := by
  refine h.thread_invariant (R := WriterOk i) (some i) ?_ ?_ ?_
  · constructor
    · intro hpc
      exact absurd rfl hpc
    · intro henr
      have hno : ¬ ((initialBody cfg i).Enrolled ∨ ∃ s, Op.record s ∈ ([] : List Op)) := by
        unfold initialBody
        split_ifs <;> simp [Body.Enrolled, EventCtl.phase]
      exact absurd henr hno
  · intro c e _ _ ht
    exact (step_move cfg (some i) e c.shared _).writerOk ht
  · intro c j e _ _ hj ht
    exact ht.other (step_move cfg j e c.shared _).turn hj

theorem collector_init (cfg : Config) (beginNs : ℕ) :
    (init cfg beginNs).shared.stats.Inv 12 :=
  Collector.inv_init 12 63 beginNs

theorem Runs.collector (h : Runs cfg beginNs c) : c.shared.stats.Inv 12 :=
  h.shared (K := fun sh => sh.stats.Inv 12) (collector_init cfg beginNs)
    fun c i e _ _ hinv => (step_move cfg i e c.shared (c.locals i)).turn.inv hinv

/-- The counters and what is still to be counted match the calls of `Record` and the samples still
to be recorded. -/
theorem Runs.account (h : Runs cfg beginNs c) (k : Tally) :
    c.shared.counters k.counter + ∑ i, owed k.counter (c.locals i).ops
      = c.shared.stats.callsOf k + ∑ i, toRecord k (c.locals i).ops := by
  refine h.account_eq (v := fun sh => sh.counters k.counter) (u := fun sh => sh.stats.callsOf k)
    (p := fun _ t => owed k.counter t.ops) (q := fun _ t => toRecord k t.ops) ?_ ?_
  · have hops : ∀ i, ((init cfg beginNs).locals i).ops = [] := fun i => by cases i <;> rfl
    simp only [hops, weigh_nil]
    have hcalls : (init cfg beginNs).shared.stats.callsOf k = 0 := Finset.sum_eq_zero fun i _ => rfl
    rw [hcalls]
    rfl
  · intro c i e hc _
    have hruns : Runs cfg beginNs c := hc
    exact (step_move cfg i e c.shared (c.locals i)).account (fun k hk => hk ▸ hruns.writerOk k)
      (fun hi => hi ▸ hruns.mainOps) k

end Engine

/-! ## The main thread's report -/

theorem Counter.mem_all (c : Counter) : c ∈ Counter.all := by
  cases c <;> decide

/-- Where the main thread is. -/
def Body.mainCtl : Body → Option MainCtl
  | .main m => some m.ctl
  | _ => none

/-- The workers are joined, and the main thread collects the final report. -/
def MainCtl.final : MainCtl → Bool
  | .reading _ final | .snapshot final => final
  | .drainStart (.report final) | .draining (.report final) => final
  | .done => true
  | _ => false

/-- The counters the report has still to read. -/
def MainCtl.unread : MainCtl → List Counter
  | .reading todo _ => todo
  | _ => []

/-- The drain of the final report has begun. -/
def MainCtl.swept : MainCtl → Bool
  | .draining (.report final) | .snapshot final => final
  | .done => true
  | _ => false

theorem MainCtl.final_of_swept {ctl : MainCtl} (h : ctl.swept = true) : ctl.final = true := by
  unfold MainCtl.swept at h
  split at h <;> first | exact h | rfl | cases h

/-- What the main thread has collected is what there is: once the workers are joined, nothing
changes any more. -/
structure MainOk (sh : Shared n) (m : Main) : Prop where
  idle : (∀ after, m.ctl ≠ .draining after) → sh.stats.drain = .idle
  joined : m.ctl.final = true → ∀ i, sh.running i = false
  read : m.ctl.final = true → ∀ c, c ∉ m.ctl.unread → m.report.counters c = sh.counters c
  swept : m.ctl.swept = true → sh.stats.Sweep
  stats : m.ctl = .done → ∃ nowNs laterNs, m.report.stats =
    snapshot sh.stats.qpsMask sh.stats.startNs nowNs laterNs sh.stats.totals

namespace MainOk

variable {cfg : Config} {env : Env} {sh sh' : Shared n} {m : Main}

/-- Before the workers are joined. -/
theorem early (hfinal : m.ctl.final = false)
    (hidle : (∀ after, m.ctl ≠ .draining after) → sh.stats.drain = .idle) : MainOk sh m := by
  have hno : m.ctl.final ≠ true := by
    rw [hfinal]
    exact Bool.false_ne_true
  refine ⟨hidle, fun h => absurd h hno, fun h => absurd h hno,
    fun h => absurd (MainCtl.final_of_swept h) hno, fun h => absurd ?_ hno⟩
  rw [h]
  rfl

/-- The steps of the workers, before they are joined. -/
theorem other (h : MainOk sh m) (hfinal : m.ctl.final = false) {i : Fin n}
    (ht : sh.stats.Turn (some i) sh'.stats) : MainOk sh' m :=
  .early hfinal fun hm => ht.drain_eq.trans (h.idle hm)

theorem mainStep {k : ℕ} (hinv : sh.stats.Inv k) (h : MainOk sh m) :
    MainOk (mainStep cfg env sh m).1 (mainStep cfg env sh m).2.2 := by
  have hidle : ∀ {ctl}, m.ctl = ctl → (∀ after, ctl ≠ .draining after) →
      sh.stats.drain = .idle := fun hctl hno => h.idle (hctl ▸ hno)
  have hjoined := h.joined
  have hread := h.read
  have hswept := h.swept
  unfold TitanBench.mainStep
  cases hc : m.ctl with
  | loopTop =>
    have hd := hidle hc fun _ h => nomatch h
    dsimp only
    split_ifs <;> exact .early rfl fun _ => hd
  | test =>
    have hd := hidle hc fun _ h => nomatch h
    dsimp only
    split_ifs <;> exact .early rfl fun _ => hd
  | reading todo final =>
    have hd := hidle hc fun _ h => nomatch h
    rw [hc] at hjoined hread
    cases todo with
    | nil =>
      exact ⟨fun _ => hd, hjoined, hread, fun h => (nomatch h), fun h => (nomatch h)⟩
    | cons c todo =>
      refine ⟨fun _ => hd, hjoined, fun hf d hno => ?_, fun h => (nomatch h),
        fun h => (nomatch h)⟩
      show Function.update m.report.counters c (sh.counters c) d = sh.counters d
      by_cases hdc : d = c
      · rw [hdc, Function.update_self]
      · rw [Function.update_of_ne hdc]
        exact hread hf d (List.not_mem_cons_of_ne_of_not_mem hdc hno)
  | drainStart after =>
    have hd := hidle hc fun _ h => nomatch h
    rw [hc] at hjoined hread
    have hsweep := Collector.sweep_begin hinv hd env.nowNs
    cases after <;> exact ⟨fun hno => absurd rfl (hno _), hjoined, hread, fun _ => hsweep,
      fun h => (nomatch h)⟩
  | draining after =>
    cases hd : sh.stats.drain with
    | idle =>
      rw [hc] at hjoined hread hswept
      cases after with
      | loop => exact .early rfl fun _ => hd
      | report final => exact ⟨fun _ => hd, hjoined, hread, hswept, fun h => (nomatch h)⟩
    | _ =>
      have hrun : sh.stats.drain ≠ .idle := by
        rw [hd]
        exact fun h => nomatch h
      refine ⟨fun hno => absurd hc (hno after), hjoined, hread,
        fun hs => (hswept hs).drainStep hinv hrun env.nowNs, fun hdone => ?_⟩
      rw [hc] at hdone
      cases hdone
  | snapshot final =>
    have hd := hidle hc fun _ h => nomatch h
    rw [hc] at hjoined hread hswept
    cases final with
    | false => exact .early rfl fun _ => hd
    | true => exact ⟨fun _ => hd, hjoined, hread, hswept, fun _ => ⟨_, _, rfl⟩⟩
  | joining =>
    have hd := hidle hc fun _ h => nomatch h
    dsimp only
    split_ifs with hj
    · exact ⟨fun _ => hd, fun _ => hj, fun _ c hno => absurd (Counter.mem_all c) hno,
        fun h => (nomatch h), fun h => (nomatch h)⟩
    · exact h
  | done => exact h

end MainOk

namespace Engine

variable {cfg : Config} {beginNs : ℕ} {c : Conf cfg.threadCount}

theorem Move.mainOk {env : Env} {sh : Shared n} {t : Thread} {r : Shared n × Thread} {k : ℕ}
    (hm : Move cfg env sh none t r) (hinv : sh.stats.Inv k) (hops : MainOps t.ops)
    (h : ∀ m, t.body = .main m → MainOk sh m) (m : Main) (hbody : r.2.body = .main m) :
    MainOk r.1 m := by
  cases hm with
  | op body hx =>
    have hold := h m hbody
    cases hx with
    | add =>
      have hop := hops _ List.mem_cons_self
      cases hop
    | main => exact hold
    | storeStop => exact ⟨hold.idle, hold.joined, hold.read, hold.swept, hold.stats⟩
  | main hr =>
    cases hbody
    rw [hr]
    exact (h _ rfl).mainStep hinv
  | stay => exact h m hbody

theorem Runs.mainOk (h : Runs cfg beginNs c) {m : Main} (hm : (c.locals none).body = .main m) :
    MainOk c.shared m := by
  refine h.thread_invariant (R := fun sh t => ∀ m, t.body = .main m → MainOk sh m) none ?_ ?_ ?_
    m hm
  · intro m hbody
    cases hbody
    exact .early rfl fun _ => rfl
  · intro c e hc _ ht
    have hruns : Runs cfg beginNs c := hc
    exact (step_move cfg none e c.shared _).mainOk hruns.collector hruns.mainOps ht
  · intro c j e hc _ hj ht m hbody
    have hold := ht m hbody
    obtain ⟨i, rfl⟩ := Option.ne_none_iff_exists'.mp hj
    cases hfinal : m.ctl.final with
    | false => exact hold.other hfinal (step_move cfg (some i) e c.shared _).turn
    | true =>
      -- A joined worker has returned.
      have hdone := Runs.exited hc i (hold.joined hfinal i)
      rw [step_exited hdone.1 hdone.2]
      exact hold

end Engine

/-! ## The final report -/

/-- The engine's counters and the statistics of a report agree, up to the dropped samples. -/
@[mk_iff]
structure EngineReport.Conserved (r : EngineReport) : Prop where
  completed : r.counters .completed = r.counters .succeeded + r.counters .failed
  recorded : r.counters .completed = r.stats.totalRequests + r.stats.droppedSamples
  success_le : r.stats.successRequests ≤ r.counters .succeeded
  failed_le : r.stats.failedRequests ≤ r.counters .failed
  dropped : (r.counters .succeeded - r.stats.successRequests)
    + (r.counters .failed - r.stats.failedRequests) = r.stats.droppedSamples

namespace Engine

variable {cfg : Config} {beginNs : ℕ} {c : Conf cfg.threadCount}

theorem weigh_mainOps {f : Op → ℕ} (hf : f .storeStop = 0) {ops : List Op} (h : MainOps ops) :
    weigh f ops = 0 := by
  induction ops with
  | nil => rfl
  | cons op ops ih =>
    have hop := h op List.mem_cons_self
    subst hop
    rw [weigh_cons, hf, Nat.zero_add]
    exact ih fun op hop => h op (List.mem_cons_of_mem _ hop)

/-- Once all workers have returned, nothing is still to be executed but the stop. -/
theorem Runs.sum_weigh_eq_zero (h : Runs cfg beginNs c) (hall : ∀ i, c.shared.running i = false)
    {f : Op → ℕ} (hf : f .storeStop = 0) : ∑ i, weigh f (c.locals i).ops = 0 := by
  refine Finset.sum_eq_zero fun i _ => ?_
  cases i with
  | none => exact weigh_mainOps hf h.mainOps
  | some i => rw [(h.exited i (hall i)).1, weigh_nil]

/-- Once all workers have returned, each counter is the number of calls of `Record` for it. -/
theorem Runs.counter_eq (h : Runs cfg beginNs c) (hall : ∀ i, c.shared.running i = false)
    (k : Tally) : c.shared.counters k.counter = c.shared.stats.callsOf k := by
  have hbooks := h.account k
  have howed : ∑ i, owed k.counter (c.locals i).ops = 0 := h.sum_weigh_eq_zero hall rfl
  have hrecord : ∑ i, toRecord k (c.locals i).ops = 0 := h.sum_weigh_eq_zero hall rfl
  rwa [howed, hrecord] at hbooks

theorem Runs.writers_idle (h : Runs cfg beginNs c) (hall : ∀ i, c.shared.running i = false)
    (i : Fin cfg.threadCount) : (c.shared.stats.writers i).pc = .idle := by
  by_contra hpc
  obtain ⟨rest, hrest⟩ := (h.writerOk i).busy hpc
  rw [(h.exited i (hall i)).1] at hrest
  cases hrest

/-- The books are closed: nothing is left to be drained, and the report shows what there is. -/
structure Closed (sh : Shared n) (m : Main) : Prop where
  joined : ∀ i, sh.running i = false
  idle : sh.stats.drain = .idle
  cleared : ∀ i, sh.stats.Cleared i
  writers : ∀ i, (sh.stats.writers i).pc = .idle
  counters : ∀ k, m.report.counters k = sh.counters k
  stats : ∃ nowNs laterNs, m.report.stats =
    snapshot sh.stats.qpsMask sh.stats.startNs nowNs laterNs sh.stats.totals

theorem Runs.closed (h : Runs cfg beginNs c) {m : Main} (hm : (c.locals none).body = .main m)
    (hdone : m.ctl = .done) : Closed c.shared m := by
  have hok := h.mainOk hm
  have hfinal : m.ctl.final = true := by rw [hdone]; rfl
  have hall := hok.joined hfinal
  have hidle := hok.idle (by rw [hdone]; exact fun _ h => nomatch h)
  refine ⟨hall, hidle, ?_, h.writers_idle hall, fun k => ?_, hok.stats hdone⟩
  · -- The last drain has left nothing behind.
    have hsweep := hok.swept (by rw [hdone]; rfl)
    rwa [Collector.Sweep, hidle] at hsweep
  · exact hok.read hfinal k (by rw [hdone]; exact List.not_mem_nil)

/-- **Conservation between the counters and the statistics.** When the run is over, the final
report counts each completed request once as succeeded or failed, and once among the recorded or
the dropped samples. -/
theorem report_conserved (h : Runs cfg beginNs c) {m : Main}
    (hm : (c.locals none).body = .main m) (hdone : m.ctl = .done) : m.report.Conserved := by
  obtain ⟨hall, hidle, hclear, hpc, hcounters, nowNs, laterNs, hstats⟩ := h.closed hm hdone
  have hread : ∀ k : Tally, m.report.counters k.counter = c.shared.stats.callsOf k := fun k =>
    (hcounters _).trans (h.counter_eq hall k)
  obtain ⟨htotal, lostSuccess, lostFailed, hlost, hsuccess, hfailed⟩ :=
    h.collector.balance hclear hidle hpc
  have hcalls : c.shared.stats.callsOf .success + c.shared.stats.callsOf .failure
      = c.shared.stats.callsOf .all := by
    unfold Collector.callsOf
    rw [← Finset.sum_add_distrib]
    refine Finset.sum_congr rfl fun i _ => ?_
    simp only [Tally.holds, Collector.countP_add_countP_not, List.countP_true]
  have hcompleted := hread .all
  have hsucceeded := hread .success
  have hfailedReq := hread .failure
  simp only [Tally.counter] at hcompleted hsucceeded hfailedReq
  simp only [Collector.callsOf, Tally.holds] at hcalls hcompleted hsucceeded hfailedReq
  rw [htotal] at hcompleted hcalls
  rw [hsuccess] at hsucceeded hcalls
  rw [hfailed] at hfailedReq hcalls
  rw [EngineReport.conserved_iff, hstats]
  simp only [snapshot_totalRequests, snapshot_successRequests, snapshot_failedRequests,
    snapshot_droppedSamples]
  omega

/-! ## One udp request -/

def oneUdpRequest : Config where
  concurrency := 1
  requests := 1
  protocol := .udp
  host := ascii "localhost"
  port := 53
  hasRequests := true

/-- The main thread drains while the worker is about to record its request; then it sees the
request completed, stops the run, joins the worker and makes its report. -/
def udpRun : Conf oneUdpRequest.threadCount :=
  let worker : Option (Fin oneUdpRequest.threadCount) × Env := (some ⟨0, by decide⟩, {})
  let main : Option (Fin oneUdpRequest.threadCount) × Env := (none, {})
  (init oneUdpRequest 0).run (step oneUdpRequest)
    (List.replicate 16 worker ++ List.replicate 8 main ++ List.replicate 10 worker
      ++ List.replicate 20 main ++ List.replicate 30 worker ++ List.replicate 40 main)

theorem report_conserved_udp_request :
    udpRun.shared.counters .completed = 1 ∧
      ∃ m, (udpRun.locals none).body = .main m ∧ m.report.Conserved := by
  have hrun : Runs oneUdpRequest 0 udpRun := reachable_run _
  obtain ⟨m, hm⟩ := hrun.main_body
  have hdone : (udpRun.locals none).body.mainCtl = some .done := by decide +kernel
  rw [hm] at hdone
  exact ⟨by decide +kernel, m, hm, report_conserved hrun hm (Option.some.inj hdone)⟩

end Engine

end TitanBench
