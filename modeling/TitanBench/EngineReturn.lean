import Mathlib.Data.Prod.Lex
import TitanBench.EngineQuota
import TitanBench.EngineStats
import TitanBench.Lib.Fair

/-!
# Run returns

Once the stop is set, every worker finishes what it has begun and returns, and the main thread joins
the workers and writes the final report. This takes a schedule on which every thread gets its turn
again and again and on which the weak exchanges do not fail for nothing for ever; a call of the
network is one step and returns.

**What gets smaller.** A worker that is to stop goes through its sweep of the sessions at most once
more. What is left to it are the exchanges of the shared counters it can still win, then the poll,
then plain steps. An exchange that fails was won by another thread, so the exchanges of all threads
together come first in the rank.

**What makes the stop come.** In duration mode only the clock: the main thread comes back to its
test whatever the workers do, since a drain is over when it has seen each writer once.

Main results: `run_returns`, `duration_run_returns`.
-/

namespace TitanBench

open Threads

variable {n : ℕ}

/-! ## What is left to a worker -/

/-- The steps to the next exchange of the counter, if nobody else exchanges it. -/
def QuotaPc.rank (started : ℕ) : QuotaPc → ℕ
  | .load => 2
  | .cas old => if started = old then 1 else 3

def RatePc.rank (token : ℤ) : RatePc → ℕ
  | .readClock => 3
  | .load _ => 2
  | .cas _ old => if token = old then 1 else 4

/-- The steps left of a call of `Record`. -/
def RecordPc.rank : RecordPc → ℕ
  | .idle => 0
  | .drop _ | .storeWrite .. => 1
  | .writeSlot .. => 2
  | .loadRead .. => 3

def Op.rank : Op → ℕ
  | .record _ => 5
  | _ => 1

@[simp] theorem Op.rank_add (c : Counter) (k : ℕ) : Op.rank (.add c k) = 1 := rfl

@[simp] theorem Op.rank_storeStop : Op.rank .storeStop = 1 := rfl

@[simp] theorem Op.rank_record (s : RequestSample) : Op.rank (.record s) = 5 := rfl

@[simp] theorem Op.rank_recording : Op.rank .recording = 1 := rfl

/-- The exchanges of the shared counters a worker that is to stop can still win. -/
def EventCtl.exchanges : EventCtl → ℕ
  | .visiting _ todo | .sending _ _ todo => 2 * todo.length
  | .acquiring _ _ _ todo => 2 * todo.length + 2
  | .waiting _ _ _ todo => 2 * todo.length + 1
  | _ => 0

/-- The polls it can still make. -/
def EventCtl.polls : EventCtl → ℕ
  | .visiting .. | .sending .. | .acquiring .. | .waiting .. | .polling => 1
  | _ => 0

/-- The steps it can still take before its next exchange or poll. -/
def EventCtl.rank (share started : ℕ) (token : ℤ) : EventCtl → ℕ
  | .exited | .polling => 0
  | .returning => 1
  | .closing => 2
  | .loopTop => 3
  | .connecting left => 4 + 2 * left
  | .start => 5 + 2 * share
  | .visiting _ todo => 1 + 30 * todo.length
  | .acquiring _ pc _ todo => 2 + 30 * todo.length + pc.rank started
  | .waiting _ pc _ todo => 2 + 30 * todo.length + pc.rank token
  | .sending _ _ todo => 22 + 30 * todo.length
  | .handling events => 4 + 20 * events.length
  | .retrying _ events => 5 + 20 * events.length
  | .reconnecting _ events => 6 + 20 * events.length

def SlotCtl.exchanges : SlotCtl → ℕ
  | .connecting | .acquiring _ => 2
  | .waiting _ => 1
  | _ => 0

def SlotCtl.rank (started : ℕ) (token : ℤ) : SlotCtl → ℕ
  | .exited => 0
  | .returning => 1
  | .loopTop => 2
  | .start => 3
  | .connecting => 8
  | .acquiring pc => 2 + pc.rank started
  | .waiting pc => 2 + pc.rank token
  | .performing => 20

namespace Body

def exchanges : Body → ℕ
  | .main _ => 0
  | .event w => w.ctl.exchanges
  | .slot s => s.ctl.exchanges

def polls : Body → ℕ
  | .event w => w.ctl.polls
  | _ => 0

def rank (share started : ℕ) (token : ℤ) : Body → ℕ
  | .main _ => 0
  | .event w => w.ctl.rank share started token
  | .slot s => s.ctl.rank started token

end Body

/-- The steps left to worker `i` before its next exchange or poll. -/
def Thread.rank (cfg : Config) (sh : Shared n) (i : Fin n) (t : Thread) : ℕ :=
  weigh Op.rank t.ops + (sh.stats.writers i).pc.rank
    + t.body.rank (cfg.perWorker i) (sh.counters .started) sh.nextTokenNs

section Exchanges

variable {cfg : Config} {started started' : ℕ} {pc pc' : QuotaPc}
  {intervalNs nowNs token token' : ℤ} {rpc rpc' : RatePc}

theorem quotaStep_nearer (h : quotaStep cfg false started pc = (started', .inl pc')) :
    started' = started ∧ pc'.rank started < pc.rank started := by
  cases pc with
  | load =>
    unfold quotaStep at h
    split_ifs at h <;> cases h
    exact ⟨rfl, by simp [QuotaPc.rank]⟩
  | cas old =>
    by_cases heq : started = old
    · simp [quotaStep, heq] at h
    · obtain ⟨rfl, rfl⟩ : started = started' ∧ .load = pc' := by simpa [quotaStep, heq] using h
      exact ⟨rfl, by simp [QuotaPc.rank, heq]⟩

theorem rateStep_nearer (h : rateStep intervalNs nowNs false token rpc = (token', some rpc')) :
    token' = token ∧ rpc'.rank token < rpc.rank token := by
  cases rpc with
  | readClock =>
    by_cases hi : intervalNs ≤ 0
    · simp [rateStep, hi] at h
    · obtain ⟨rfl, rfl⟩ : token = token' ∧ .load nowNs = rpc' := by simpa [rateStep, hi] using h
      exact ⟨rfl, by simp [RatePc.rank]⟩
  | load now =>
    obtain ⟨rfl, rfl⟩ : token = token' ∧ .cas now token = rpc' := by simpa [rateStep] using h
    exact ⟨rfl, by simp [RatePc.rank]⟩
  | cas now old =>
    by_cases heq : token = old
    · simp [rateStep, heq] at h
    · obtain ⟨rfl, rfl⟩ : token = token' ∧ .readClock = rpc' := by simpa [rateStep, heq] using h
      exact ⟨rfl, by simp [RatePc.rank, heq]⟩

end Exchanges

/-! ## One step of a worker -/

/-- Worker `i` has an exchange less to win; or the counters are as they were and it has a poll less,
or a step less, to go. -/
def Nearer (cfg : Config) (i : Fin n) (sh : Shared n) (t : Thread) (sh' : Shared n) (t' : Thread) :
    Prop :=
  t'.body.exchanges < t.body.exchanges ∨
    (sh'.counters .started = sh.counters .started ∧ sh'.nextTokenNs = sh.nextTokenNs ∧
      t'.body.exchanges = t.body.exchanges) ∧
    (t'.body.polls < t.body.polls ∨
      t'.body.polls = t.body.polls ∧ t'.rank cfg sh' i < t.rank cfg sh i)

section Step

variable {cfg : Config} {i : Fin n} {env : Env} {sh sh' : Shared n} {t t' : Thread}

/-- A step that leaves the counters alone. -/
theorem nearer_step (hcounters : sh'.counters .started = sh.counters .started)
    (htoken : sh'.nextTokenNs = sh.nextTokenNs)
    (hexchanges : t'.body.exchanges = t.body.exchanges) (hpolls : t'.body.polls = t.body.polls)
    (hrank : t'.rank cfg sh' i < t.rank cfg sh i) : Nearer cfg i sh t sh' t' :=
  .inr ⟨⟨hcounters, htoken, hexchanges⟩, .inr ⟨hpolls, hrank⟩⟩

theorem rank_dataEvent (cfg : Config) (env : Env) (data : Bytes) (old : Session) :
    weigh Op.rank (EventWorker.dataEvent cfg env data old).1 ≤ 7 := by
  have hd := EventWorker.dataEvent_digested cfg env data old
  generalize EventWorker.dataEvent cfg env data old = r at hd
  cases hd with
  | rejected => simp [EventWorker.parseErrorOps]
  | finished => simp [EventWorker.responseOps]
  | _ => simp

theorem rank_errorOps (cfg : Config) (env : Env) (ec : NetErrc) (old : Session) :
    weigh Op.rank (EventWorker.errorOps cfg env ec old) ≤ 7 := by
  unfold EventWorker.errorOps
  split_ifs <;> simp

/-- A step of an event-driven worker that leaves the counters alone. -/
theorem nearer_event {w w' : EventWorker} {ops : List Op}
    (hcounters : sh'.counters .started = sh.counters .started)
    (htoken : sh'.nextTokenNs = sh.nextTokenNs) (hwriters : sh'.stats.writers = sh.stats.writers)
    (hexchanges : w'.ctl.exchanges = w.ctl.exchanges) (hpolls : w'.ctl.polls = w.ctl.polls)
    (hrank : weigh Op.rank ops
        + w'.ctl.rank (cfg.perWorker i) (sh.counters .started) sh.nextTokenNs
      < w.ctl.rank (cfg.perWorker i) (sh.counters .started) sh.nextTokenNs) :
    Nearer cfg i sh ⟨[], .event w⟩ sh' ⟨ops, .event w'⟩ := by
  refine nearer_step hcounters htoken hexchanges hpolls ?_
  simp only [Thread.rank, Body.rank, hcounters, htoken, hwriters, weigh_nil]
  omega

theorem nearer_loopTop {w : EventWorker} (hstop : sh.stop = true) (hc : w.ctl = .loopTop) :
    Nearer cfg i sh ⟨[], .event w⟩ (eventStep cfg i env sh w).1
      ⟨(eventStep cfg i env sh w).2.1, .event (eventStep cfg i env sh w).2.2⟩ := by
  have hstep : eventStep cfg i env sh w = (sh, [], w.goto .closing) := by
    unfold eventStep
    rw [hc]
    exact if_pos hstop
  rw [hstep]
  refine nearer_event rfl rfl rfl ?_ ?_ ?_ <;>
    simp [hc, EventWorker.goto, EventCtl.exchanges, EventCtl.polls, EventCtl.rank]

theorem nearer_acquiring {w : EventWorker} (hsp : env.spurious = false) {id now : ℕ} {pc : QuotaPc}
    {todo : List ℕ} (hc : w.ctl = .acquiring id pc now todo) :
    Nearer cfg i sh ⟨[], .event w⟩ (eventStep cfg i env sh w).1
      ⟨(eventStep cfg i env sh w).2.1, .event (eventStep cfg i env sh w).2.2⟩ := by
  unfold eventStep
  rw [hc, hsp]
  dsimp only
  rcases hq : quotaStep cfg false (sh.counters .started) pc with ⟨started, pc' | granted⟩
  · obtain ⟨rfl, hlt⟩ := quotaStep_nearer hq
    refine nearer_event (by simp) rfl rfl ?_ ?_ ?_ <;>
      simp [hc, EventWorker.goto, EventCtl.exchanges, EventCtl.polls, EventCtl.rank, hlt]
  · left
    cases granted <;> simp [Body.exchanges, hc, EventWorker.goto, EventCtl.exchanges]

theorem nearer_waiting {w : EventWorker} (hsp : env.spurious = false) {id now : ℕ} {pc : RatePc}
    {todo : List ℕ} (hc : w.ctl = .waiting id pc now todo) :
    Nearer cfg i sh ⟨[], .event w⟩ (eventStep cfg i env sh w).1
      ⟨(eventStep cfg i env sh w).2.1, .event (eventStep cfg i env sh w).2.2⟩ := by
  unfold eventStep
  rw [hc, hsp]
  dsimp only
  rcases hr : rateStep cfg.rateIntervalNs env.nowNs false sh.nextTokenNs pc with ⟨token, result⟩
  cases result with
  | some pc' =>
    obtain ⟨rfl, hlt⟩ := rateStep_nearer hr
    refine nearer_event rfl rfl rfl ?_ ?_ ?_ <;>
      simp [hc, EventWorker.goto, EventCtl.exchanges, EventCtl.polls, EventCtl.rank, hlt]
  | none =>
    left
    simp [Body.exchanges, hc, EventWorker.goto, EventCtl.exchanges]

theorem eventStep_nearer {w : EventWorker} (hstop : sh.stop = true) (hsp : env.spurious = false)
    (hlive : w.ctl ≠ .exited) :
    Nearer cfg i sh ⟨[], .event w⟩ (eventStep cfg i env sh w).1
      ⟨(eventStep cfg i env sh w).2.1, .event (eventStep cfg i env sh w).2.2⟩ := by
  by_cases htop : w.ctl = .loopTop
  · exact nearer_loopTop hstop htop
  have hm := EventWorker.eventStep_move cfg i env sh w
  have hacquiring := @nearer_acquiring n cfg i env sh w hsp
  have hwaiting := @nearer_waiting n cfg i env sh w hsp
  have hwriters := Engine.writers_event hm
  generalize eventStep cfg i env sh w = r at hm hacquiring hwaiting hwriters
  cases hm with
  | goes hg =>
    cases hg with
    | sweep now todo hc => exact absurd hc htop
    | stay hc => exact absurd hc hlive
    | enter hc | swept hc | pick hc | gone hc | handled hc | unknown hc =>
      refine nearer_event rfl rfl rfl ?_ ?_ ?_ <;>
        simp [hc, EventWorker.goto, EventCtl.exchanges, EventCtl.polls, EventCtl.rank,
          QuotaPc.rank] <;> omega
    | skip hc => exact .inl (by simp [Body.exchanges, hc, EventWorker.goto, EventCtl.exchanges])
  | stopped hc => exact absurd hc htop
  | acquires hc | refused hc | granted hc => exact hacquiring hc
  | waits _ hc | waited _ hc => exact hwaiting hc
  | polled hc | pollFailed hc =>
    exact .inr ⟨⟨rfl, rfl, by simp [Body.exchanges, hc, EventCtl.exchanges]⟩,
      .inl (by simp [Body.polls, hc, EventCtl.polls])⟩
  | opened session hopens | notOpened hopens =>
    generalize hc : w.ctl = ctl at hopens
    cases hopens <;> refine nearer_event rfl rfl rfl ?_ ?_ ?_ <;>
      simp [hc, EventCtl.exchanges, EventCtl.polls, EventCtl.rank] <;> omega
  | @errored ev events old hc =>
    have hops := rank_errorOps cfg env ev.error old
    refine nearer_event rfl rfl rfl ?_ ?_ ?_ <;>
      simp [hc, EventCtl.exchanges, EventCtl.polls, EventCtl.rank]
    omega
  | @received ev events old hc =>
    have hops := rank_dataEvent cfg env ev.data old
    refine nearer_event rfl rfl rfl ?_ ?_ ?_ <;>
      simp [hc, EventCtl.exchanges, EventCtl.polls, EventCtl.rank]
    omega
  | retried _ _ hrun =>
    rw [hstop] at hrun
    cases hrun
  | started hc | notStarted hc | givenUp hc | returned hc | closed hc | sent hc | requested hc
  | sendFailed hc =>
    refine nearer_event rfl rfl hwriters ?_ ?_ ?_ <;>
      simp [hc, EventWorker.goto, EventWorker.closeAll, EventCtl.exchanges, EventCtl.polls,
        EventCtl.rank, EventWorker.sendDoneOps, EventWorker.sendFailedOps] <;> omega

/-- A step of a slot that leaves the counters alone. -/
theorem nearer_slot {s s' : Slot} {ops : List Op}
    (hcounters : sh'.counters .started = sh.counters .started)
    (htoken : sh'.nextTokenNs = sh.nextTokenNs) (hwriters : sh'.stats.writers = sh.stats.writers)
    (hexchanges : s'.ctl.exchanges = s.ctl.exchanges)
    (hrank : weigh Op.rank ops + s'.ctl.rank (sh.counters .started) sh.nextTokenNs
      < s.ctl.rank (sh.counters .started) sh.nextTokenNs) :
    Nearer cfg i sh ⟨[], .slot s⟩ sh' ⟨ops, .slot s'⟩ := by
  refine nearer_step hcounters htoken hexchanges rfl ?_
  simp only [Thread.rank, Body.rank, hcounters, htoken, hwriters, weigh_nil]
  omega

theorem nearer_slotLoopTop {s : Slot} (hstop : sh.stop = true) (hc : s.ctl = .loopTop) :
    Nearer cfg i sh ⟨[], .slot s⟩ (slotStep cfg i env sh s).1
      ⟨(slotStep cfg i env sh s).2.1, .slot (slotStep cfg i env sh s).2.2⟩ := by
  have hstep : slotStep cfg i env sh s = (sh, [], s.goto .returning) := by
    unfold slotStep
    rw [hc]
    exact if_pos hstop
  rw [hstep]
  refine nearer_slot rfl rfl rfl ?_ ?_ <;> simp [hc, Slot.goto, SlotCtl.exchanges, SlotCtl.rank]

theorem nearer_slotAcquiring {s : Slot} (hsp : env.spurious = false) {pc : QuotaPc}
    (hc : s.ctl = .acquiring pc) :
    Nearer cfg i sh ⟨[], .slot s⟩ (slotStep cfg i env sh s).1
      ⟨(slotStep cfg i env sh s).2.1, .slot (slotStep cfg i env sh s).2.2⟩ := by
  unfold slotStep
  rw [hc, hsp]
  dsimp only
  rcases hq : quotaStep cfg false (sh.counters .started) pc with ⟨started, pc' | granted⟩
  · obtain ⟨rfl, hlt⟩ := quotaStep_nearer hq
    refine nearer_slot (by simp) rfl rfl ?_ ?_ <;>
      simp [hc, Slot.goto, SlotCtl.exchanges, SlotCtl.rank, hlt]
  · left
    cases granted <;> simp [Body.exchanges, hc, Slot.goto, SlotCtl.exchanges]

theorem nearer_slotWaiting {s : Slot} (hsp : env.spurious = false) {pc : RatePc}
    (hc : s.ctl = .waiting pc) :
    Nearer cfg i sh ⟨[], .slot s⟩ (slotStep cfg i env sh s).1
      ⟨(slotStep cfg i env sh s).2.1, .slot (slotStep cfg i env sh s).2.2⟩ := by
  unfold slotStep
  rw [hc, hsp]
  dsimp only
  rcases hr : rateStep cfg.rateIntervalNs env.nowNs false sh.nextTokenNs pc with ⟨token, result⟩
  cases result with
  | some pc' =>
    obtain ⟨rfl, hlt⟩ := rateStep_nearer hr
    refine nearer_slot rfl rfl rfl ?_ ?_ <;>
      simp [hc, Slot.goto, SlotCtl.exchanges, SlotCtl.rank, hlt]
  | none =>
    left
    simp [Body.exchanges, hc, Slot.goto, SlotCtl.exchanges]

theorem slotStep_nearer {s : Slot} (hstop : sh.stop = true) (hsp : env.spurious = false)
    (hlive : s.ctl ≠ .exited) :
    Nearer cfg i sh ⟨[], .slot s⟩ (slotStep cfg i env sh s).1
      ⟨(slotStep cfg i env sh s).2.1, .slot (slotStep cfg i env sh s).2.2⟩ := by
  by_cases htop : s.ctl = .loopTop
  · exact nearer_slotLoopTop hstop htop
  have hm := Slot.slotStep_move cfg i env sh s
  have hacquiring := @nearer_slotAcquiring n cfg i env sh s hsp
  have hwaiting := @nearer_slotWaiting n cfg i env sh s hsp
  have hwriters := Engine.writers_slot hm
  generalize slotStep cfg i env sh s = r at hm hacquiring hwaiting hwriters
  cases hm with
  | goes hg =>
    cases hg with
    | stopped hc | enter hc => exact absurd hc htop
    | stay hc => exact absurd hc hlive
  | acquires hc | refused hc | granted hc => exact hacquiring hc
  | waits _ hc | waited _ hc => exact hwaiting hc
  | retried _ hc | gaveUp _ hc =>
    exact .inl (by simp [Body.exchanges, hc, SlotCtl.exchanges])
  | started _ hc | notStarted _ hc | connected _ hc =>
    refine nearer_slot rfl rfl hwriters ?_ ?_ <;>
      simp [hc, SlotCtl.exchanges, SlotCtl.rank, QuotaPc.rank]
  | performed _ _ _ _ _ hc hops =>
    refine nearer_slot rfl rfl hwriters ?_ ?_ <;> rcases hops with rfl | rfl <;>
      simp [hc, SlotCtl.exchanges, SlotCtl.rank, Slot.resultOps]
  | returned hc =>
    refine nearer_slot rfl rfl hwriters ?_ ?_ <;>
      simp [hc, Slot.goto, SlotCtl.exchanges, SlotCtl.rank]

/-- One step of `Record` brings it closer to its end. -/
theorem rank_recordStep (capacity : ℕ) (sample : RequestSample) {w : Writer} (h : w.pc ≠ .idle) :
    (w.recordStep capacity sample).pc.rank < w.pc.rank := by
  unfold Writer.recordStep
  cases hc : w.pc with
  | idle => exact absurd hc h
  | loadRead s write =>
    dsimp only
    split_ifs <;> simp [RecordPc.rank]
  | _ => simp [RecordPc.rank]

theorem RecordPc.rank_le (pc : RecordPc) : pc.rank ≤ 3 := by
  cases pc <;> simp [RecordPc.rank]

theorem op_nearer {op : Op} {rest : List Op} {body : Body} {r : Shared n × List Op}
    (hx : op.Exec sh rest (some i) r) (hw : Engine.WriterOk i sh ⟨op :: rest, body⟩) {k : ℕ}
    (hinv : sh.stats.Inv k) (howed : owed .started (op :: rest) = 0) :
    Nearer cfg i sh ⟨op :: rest, body⟩ r.1 ⟨r.2, body⟩ := by
  have hpays := hx.pays .started
  have hle := hx.counters_le .started
  have hcounters : r.1.counters .started = sh.counters .started := by omega
  have htoken : r.1.nextTokenNs = sh.nextTokenNs := by cases hx <;> rfl
  refine nearer_step hcounters htoken rfl rfl ?_
  have hrank : weigh Op.rank r.2 + (r.1.stats.writers i).pc.rank
      < weigh Op.rank (op :: rest) + (sh.stats.writers i).pc.rank := by
    cases hx with
    | add | storeStop | recorded => simp
    | record _ s =>
      have hpc := RecordPc.rank_le ((sh.stats.recordStep i s).writers i).pc
      simp only [weigh_cons, Op.rank_record, Op.rank_recording]
      omega
    | recording _ hpc =>
      have hreg : i ∈ sh.stats.registered := by
        by_contra hno
        rw [(hinv.seen i).fresh hno] at hpc
        exact hpc rfl
      have hlt := rank_recordStep sh.stats.ringCapacity {} hpc
      rw [Collector.recordStep_self hreg]
      simp only [weigh_cons]
      omega
  simp only [Thread.rank, hcounters, htoken]
  omega

/-- Every step of a worker that has not returned, once the stop is set. -/
theorem step_nearer (hstop : sh.stop = true) (hsp : env.spurious = false)
    (hw : Engine.WriterOk i sh t) {k : ℕ} (hinv : sh.stats.Inv k)
    (howed : owed .started t.ops = 0) (hbody : ∀ m, t.body ≠ .main m)
    (hlive : t.ops ≠ [] ∨ ¬ t.body.Exited) :
    Nearer cfg i sh t (Engine.step cfg (some i) env sh t).1
      (Engine.step cfg (some i) env sh t).2 := by
  obtain ⟨ops, body⟩ := t
  cases ops with
  | cons op rest => exact op_nearer (execOp_exec (some i) op rest sh) hw hinv howed
  | nil =>
    have hgo : ¬ body.Exited := hlive.resolve_left fun h => h rfl
    cases body with
    | main m => exact absurd rfl (hbody m)
    | event w => exact eventStep_nearer hstop hsp hgo
    | slot s => exact slotStep_nearer hstop hsp hgo

end Step

theorem mainStep_token (cfg : Config) (env : Env) (sh : Shared n) (m : Main) :
    (mainStep cfg env sh m).1.nextTokenNs = sh.nextTokenNs := by
  unfold mainStep
  cases m.ctl with
  | reading todo final => cases todo <;> rfl
  | draining after =>
    dsimp only
    cases sh.stats.drain with
    | idle => cases after <;> rfl
    | _ => rfl
  | loopTop | test | joining => dsimp only; split_ifs <;> rfl
  | _ => rfl

/-! ## What a run keeps -/

theorem EventWorker.Move.running_of_exited {cfg : Config} {env : Env} {sh : Shared n} {i : Fin n}
    {w : EventWorker} {r : Shared n × List Op × EventWorker} (hm : w.Move cfg i env sh r)
    (h : w.ctl = .exited → sh.running i = false) (hr : r.2.2.ctl = .exited) :
    r.1.running i = false := by
  cases hm with
  | goes hg =>
    cases hg with
    | stay hc => exact h hc
    | _ => cases hr
  | opened session hopens =>
    rcases hopens.next with ⟨left, rfl⟩ | ⟨events, rfl⟩ <;> cases hr
  | returned => exact Function.update_self _ _ _
  | _ => cases hr

theorem Slot.Move.running_of_exited {cfg : Config} {env : Env} {sh : Shared n} {i : Fin n}
    {s : Slot} {r : Shared n × List Op × Slot} (hm : s.Move cfg i env sh r)
    (h : s.ctl = .exited → sh.running i = false) (hr : r.2.2.ctl = .exited) :
    r.1.running i = false := by
  cases hm with
  | goes hg =>
    cases hg with
    | stay hc => exact h hc
    | _ => cases hr
  | returned => exact Function.update_self _ _ _
  | _ => cases hr

namespace Engine

variable {cfg : Config} {beginNs : ℕ} {c : Conf cfg.threadCount}

theorem Move.owed_started {env : Env} {sh : Shared n} {i : Option (Fin n)} {t : Thread}
    {r : Shared n × Thread} (hm : Move cfg env sh i t r) (h : owed .started t.ops = 0) :
    owed .started r.2.ops = 0 := by
  cases hm with
  | op body hx =>
    have hpays := hx.pays .started
    have hle := hx.counters_le .started
    dsimp only at h ⊢
    omega
  | @main m r hr =>
    have hf := mainStep_frame cfg env sh m
    rw [← hr] at hf
    rcases hf.ops with hops | hops <;> rw [hops] <;> rfl
  | event hm => exact owed_started_event hm
  | slot hm => exact owed_started_slot hm
  | stay => rfl

/-- No operation counts a started request. -/
theorem Runs.owed_started (h : Runs cfg beginNs c) (i : Option (Fin cfg.threadCount)) :
    owed .started (c.locals i).ops = 0 := by
  refine h.local_invariant (J := fun t => owed .started t.ops = 0) i ?_ ?_
  · cases i <;> rfl
  · intro c e _ _ ht
    exact (step_move cfg i e c.shared _).owed_started ht

/-- A worker is no main thread. -/
theorem Runs.worker_body (h : Runs cfg beginNs c) (i : Fin cfg.threadCount) :
    ∀ m, (c.locals (some i)).body ≠ .main m := by
  refine h.local_invariant (J := fun t => ∀ m, t.body ≠ .main m) (some i) ?_ ?_
  · intro m
    show initialBody cfg i ≠ _
    unfold initialBody
    split_ifs <;> exact fun heq => nomatch heq
  · intro c e _ _ ht m
    have hm := step_move cfg (some i) e c.shared (c.locals (some i))
    generalize step cfg (some i) e c.shared (c.locals (some i)) = r at hm
    generalize c.locals (some i) = t at hm ht
    cases hm with
    | op | stay => exact ht m
    | event | slot => exact fun heq => nomatch heq

/-- A worker that has returned is not running any more. -/
theorem Runs.running_of_exited (h : Runs cfg beginNs c) (i : Fin cfg.threadCount)
    (hexited : (c.locals (some i)).body.Exited) : c.shared.running i = false := by
  refine h.thread_invariant (R := fun sh t => t.body.Exited → sh.running i = false) (some i)
    ?_ ?_ ?_ hexited
  · intro hinit
    have hbody : (initialBody cfg i).Exited := hinit
    unfold initialBody at hbody
    split_ifs at hbody with hp hshare
    · cases hbody
    · simp [init, hp, hshare]
    · cases hbody
  · intro c e _ _ ht
    have hm := step_move cfg (some i) e c.shared (c.locals (some i))
    generalize step cfg (some i) e c.shared (c.locals (some i)) = r at hm
    generalize c.locals (some i) = t at hm ht
    intro hr
    cases hm with
    | op body hx =>
      rw [hx.running]
      exact ht hr
    | event hm => exact hm.running_of_exited ht hr
    | slot hm => exact hm.running_of_exited ht hr
    | stay => exact ht hr
  · intro c j e _ _ hj ht hbody
    rcases (step_move cfg j e c.shared (c.locals j)).running with hsame | ⟨k, rfl, hup, -⟩
    · rw [hsame]
      exact ht hbody
    · have hne : i ≠ k := fun heq => hj (congrArg some heq.symm)
      rw [hup, Function.update_of_ne hne]
      exact ht hbody

/-! ## The workers return -/

/-- The exchanges, the polls and the steps left to the workers. -/
def rank (cfg : Config) (c : Conf n) : ℕ ×ₗ (ℕ ×ₗ ℕ) :=
  toLex (∑ i, (c.locals (some i)).body.exchanges,
    toLex (∑ i, (c.locals (some i)).body.polls,
      ∑ i, (c.locals (some i)).rank cfg c.shared i))

theorem sum_lt_of_one {f g : Fin n → ℕ} (i : Fin n) (hi : f i < g i) (h : ∀ j, j ≠ i → f j = g j) :
    ∑ j, f j < ∑ j, g j := by
  refine Finset.sum_lt_sum (fun j _ => ?_) ⟨i, Finset.mem_univ i, hi⟩
  by_cases hj : j = i
  · exact hj ▸ hi.le
  · exact (h j hj).le

theorem sum_eq_of_one {f g : Fin n → ℕ} (i : Fin n) (hi : f i = g i) (h : ∀ j, j ≠ i → f j = g j) :
    ∑ j, f j = ∑ j, g j := by
  refine Finset.sum_congr rfl fun j _ => ?_
  by_cases hj : j = i
  · exact hj ▸ hi
  · exact h j hj

theorem rank_lt {c : Conf n} {i : Fin n} {e : Env}
    (h : Nearer cfg i c.shared (c.locals (some i))
      (step cfg (some i) e c.shared (c.locals (some i))).1
      (step cfg (some i) e c.shared (c.locals (some i))).2) :
    rank cfg (c.step (step cfg) (some i) e) < rank cfg c := by
  have hself : (c.step (step cfg) (some i) e).locals (some i)
      = (step cfg (some i) e c.shared (c.locals (some i))).2 := Conf.step_local_self _ _
  have hother : ∀ j, j ≠ i →
      (c.step (step cfg) (some i) e).locals (some j) = c.locals (some j) := fun j hj =>
    Conf.step_local_ne (fun heq => hj (Option.some.inj heq)) e
  have hturn := (step_move cfg (some i) e c.shared (c.locals (some i))).turn
  unfold rank
  rw [Prod.Lex.toLex_lt_toLex]
  rcases h with hlt | ⟨⟨hcounters, htoken, hsame⟩, hrest⟩
  · left
    exact sum_lt_of_one i (by rwa [hself]) fun j hj => by rw [hother j hj]
  · right
    refine ⟨sum_eq_of_one i (by rwa [hself]) fun j hj => by rw [hother j hj], ?_⟩
    rw [Prod.Lex.toLex_lt_toLex]
    rcases hrest with hlt | ⟨hpolls, hlt⟩
    · exact .inl (sum_lt_of_one i (by rwa [hself]) fun j hj => by rw [hother j hj])
    · right
      refine ⟨sum_eq_of_one i (by rwa [hself]) fun j hj => by rw [hother j hj], ?_⟩
      refine sum_lt_of_one i (by rwa [hself]) fun j hj => ?_
      have hpc := (hturn.other (k := j) fun heq => hj (Option.some.inj heq).symm).1
      rw [hother j hj]
      simp only [Thread.rank, Conf.step_shared, hcounters, htoken, hpc]

/-- The main thread leaves the workers and their counters alone. -/
theorem rank_main (h : Runs cfg beginNs c) (e : Env) :
    rank cfg (c.step (step cfg) none e) = rank cfg c := by
  have hm := step_move cfg none e c.shared (c.locals none)
  have hother : ∀ j, (c.step (step cfg) none e).locals (some j) = c.locals (some j) := fun j =>
    Conf.step_local_ne (Option.some_ne_none j) e
  have hpc := fun j => (hm.turn.other (k := j) fun heq => nomatch heq).1
  have hkept : (step cfg none e c.shared (c.locals none)).1.counters .started
        = c.shared.counters .started ∧
      (step cfg none e c.shared (c.locals none)).1.nextTokenNs = c.shared.nextTokenNs := by
    have hops := h.mainOps
    generalize step cfg none e c.shared (c.locals none) = r at hm
    generalize c.locals none = t at hm hops
    cases hm with
    | op body hx =>
      cases hx with
      | add i c k => cases hops _ List.mem_cons_self
      | _ => exact ⟨rfl, rfl⟩
    | main hr =>
      rw [hr]
      exact ⟨congrFun (mainStep_frame cfg e c.shared _).counters _, mainStep_token cfg e c.shared _⟩
    | stay => exact ⟨rfl, rfl⟩
  simp only [rank, hother, Thread.rank, hkept.1, hkept.2, Conf.step_shared, hpc]

/-- **The workers return.** -/
theorem workers_return (h : Runs cfg beginNs c)
    {sched : ℕ → Option (Fin cfg.threadCount) × Env} (hfair : Fair fun k => (sched k).1) (k₀ : ℕ)
    (hstop : ∀ k, k₀ ≤ k → (c.trace (step cfg) sched k).shared.stop = true)
    (hspurious : ∀ k, k₀ ≤ k → (sched k).2.spurious = false) :
    ∃ k, k₀ ≤ k ∧ ∀ i, (c.trace (step cfg) sched k).shared.running i = false := by
  suffices hidle : ∃ k, k₀ ≤ k ∧ ∀ i, ¬ ∃ j, i = some j ∧
      (c.trace (step cfg) sched k).shared.running j = true by
    obtain ⟨k, hk, hidle⟩ := hidle
    exact ⟨k, hk, fun i => by simpa using fun hrun => hidle (some i) ⟨i, rfl, hrun⟩⟩
  refine hfair.eventually_idle (c.trace (step cfg) sched) (rank cfg)
    (fun c i => ∃ j, i = some j ∧ c.shared.running j = true) k₀ fun k hk => ?_
  have hrun : Runs cfg beginNs (c.trace (step cfg) sched k) := Reach.trace h sched k
  rw [Conf.trace_succ]
  cases hturn : (sched k).1 with
  | none =>
    refine .inr ⟨rank_main hrun _, fun ⟨j, hj, _⟩ => (nomatch hj), fun i ⟨j, hj, hbusy⟩ =>
      ⟨j, hj, ?_⟩⟩
    rcases (step_move cfg none (sched k).2 _ _).running with hsame | ⟨j', hj', -⟩
    · rw [Conf.step_shared, hsame]
      exact hbusy
    · cases hj'
  | some i =>
    cases hrunning : (c.trace (step cfg) sched k).shared.running i with
    | false =>
      have hdone := hrun.exited i hrunning
      have hstay := Conf.step_eq_self (step_exited hdone.1 hdone.2 cfg (some i) (sched k).2
        (c.trace (step cfg) sched k).shared)
      rw [hstay]
      refine .inr ⟨rfl, ?_, fun _ hbusy => hbusy⟩
      rintro ⟨j, hj, hbusy⟩
      cases hj
      rw [hrunning] at hbusy
      cases hbusy
    | true =>
      left
      refine rank_lt (step_nearer (hstop k hk) (hspurious k hk) (hrun.writerOk i) hrun.collector
        (hrun.owed_started _) (hrun.worker_body i) (.inr fun hexited => ?_))
      rw [hrun.running_of_exited i hexited] at hrunning
      cases hrunning

end Engine

/-! ## What is left to the main thread -/

/-- The writers a drain has still to visit, and the samples of the one it is at. -/
def DrainPc.rank {ι : Type*} : DrainPc ι → ℕ × ℕ
  | .idle => (0, 0)
  | .nextWriter todo => (6 * todo.length + 1, 0)
  | .addDropped _ todo => (6 * todo.length + 2, 0)
  | .exchange _ todo => (6 * todo.length + 3, 0)
  | .consume _ r write todo => (6 * todo.length + 4, write - r)
  | .loadWrite _ _ todo => (6 * todo.length + 5, 0)

/-- A drain reads the write index of a writer once, so it comes to an end while samples are
recorded. -/
theorem Collector.rank_drainStep {ι : Type*} [DecidableEq ι] (c : Collector ι) (nowNs : ℕ)
    (h : c.drain ≠ .idle) : toLex (c.drainStep nowNs).drain.rank < toLex c.drain.rank := by
  rw [Prod.Lex.toLex_lt_toLex]
  unfold Collector.drainStep
  cases hc : c.drain with
  | idle => exact absurd hc h
  | nextWriter todo =>
    cases todo with
    | nil => simp [DrainPc.rank]
    | cons i todo =>
      left
      simp only [DrainPc.rank, List.length_cons]
      omega
  | consume i r write todo =>
    dsimp only
    split_ifs with hr
    · right
      refine ⟨rfl, ?_⟩
      show write - (r + 1) < write - r
      omega
    · simp [DrainPc.rank]
  | _ => simp [DrainPc.rank]

/-- The stages the main thread has still to go through; `atTest` stands for those after a test. -/
def MainCtl.rank (atTest : ℕ) : MainCtl → ℕ
  | .done => 0
  | .snapshot true => 1
  | .draining (.report true) => 2
  | .drainStart (.report true) => 3
  | .reading todo true => 4 + todo.length
  | .joining => 12
  | .test => atTest
  | .loopTop => 20
  | .snapshot false | .draining .loop => 21
  | .draining (.report false) | .drainStart .loop => 22
  | .drainStart (.report false) => 23
  | .reading todo false => 24 + todo.length

/-- What is left to the main thread, with the operations `ops` to execute. -/
def Main.rank (atTest : ℕ) (sh : Shared n) (ops : List Op) (m : Main) : ℕ ×ₗ (ℕ ×ₗ ℕ) :=
  toLex (m.ctl.rank atTest + ops.length, toLex sh.stats.drain.rank)

theorem mainStep_rank {cfg : Config} {env : Env} {sh : Shared n} {m : Main} {atTest : ℕ}
    (htop : m.ctl = .loopTop → sh.stop = true ∨ atTest < 20)
    (htest : m.ctl = .test → 40 ≤ atTest ∨ m.finished cfg env sh = true ∧ 13 < atTest)
    (hjoin : m.ctl = .joining → ∀ i, sh.running i = false) (hdone : m.ctl ≠ .done) :
    (mainStep cfg env sh m).2.2.rank atTest (mainStep cfg env sh m).1 (mainStep cfg env sh m).2.1
      < m.rank atTest sh [] := by
  unfold Main.rank mainStep
  rw [Prod.Lex.toLex_lt_toLex]
  cases hc : m.ctl with
  | done => exact absurd hc hdone
  | loopTop =>
    have hstop := htop hc
    dsimp only
    split_ifs with hs
    · simp [Main.goto, MainCtl.rank]
    · simp [Main.goto, MainCtl.rank, hstop.resolve_left hs]
  | test =>
    have hfinished := htest hc
    dsimp only
    split_ifs with hf
    · left
      simp only [Main.goto, MainCtl.rank, List.length_singleton, List.length_nil]
      omega
    · left
      have hlate := hfinished.resolve_right fun h => hf h.1
      simp only [Main.goto, MainCtl.rank, Counter.all, List.length_cons, List.length_nil]
      omega
    · left
      have hlate := hfinished.resolve_right fun h => hf h.1
      simp only [Main.goto, MainCtl.rank, List.length_nil]
      omega
  | joining =>
    dsimp only
    rw [if_pos (hjoin hc)]
    simp [Main.goto, MainCtl.rank, Counter.all]
  | reading todo final =>
    cases final <;> cases todo <;> simp [MainCtl.rank]
  | drainStart after =>
    rcases after with _ | (_ | _) <;> simp [Main.goto, MainCtl.rank]
  | draining after =>
    dsimp only
    cases hd : sh.stats.drain with
    | idle => rcases after with _ | (_ | _) <;> simp [Main.goto, MainCtl.rank]
    | _ =>
      right
      refine ⟨by rw [hc], ?_⟩
      dsimp only
      rw [← hd]
      exact sh.stats.rank_drainStep env.nowNs (by rw [hd]; exact fun heq => nomatch heq)
  | snapshot final => cases final <;> simp [MainCtl.rank]

/-- The main thread has left its loop. -/
def MainCtl.Left (ctl : MainCtl) : Prop := ctl = .joining ∨ ctl.final = true

theorem mainStep_beginNs (cfg : Config) (env : Env) (sh : Shared n) (m : Main) :
    (mainStep cfg env sh m).2.2.beginNs = m.beginNs := by
  unfold mainStep
  cases m.ctl with
  | reading todo final => cases todo <;> rfl
  | draining after =>
    dsimp only
    cases sh.stats.drain with
    | idle => cases after <;> rfl
    | _ => rfl
  | loopTop | test | joining => dsimp only; split_ifs <;> rfl
  | _ => rfl

/-- The main thread leaves its loop only with the stop. -/
theorem mainStep_left {cfg : Config} {env : Env} {sh : Shared n} {m : Main}
    (h : (mainStep cfg env sh m).2.2.ctl.Left) :
    m.ctl.Left ∨ sh.stop = true ∨ .storeStop ∈ (mainStep cfg env sh m).2.1 := by
  unfold mainStep at h ⊢
  unfold MainCtl.Left at h ⊢
  cases hc : m.ctl with
  | loopTop =>
    rw [hc] at h
    dsimp only at h ⊢
    split_ifs at h ⊢ with hs
    · exact .inr (.inl hs)
    · simp [Main.goto, MainCtl.final] at h
  | test =>
    rw [hc] at h
    dsimp only at h ⊢
    split_ifs at h ⊢
    · exact .inr (.inr (List.mem_singleton.mpr rfl))
    · simp [Main.goto, MainCtl.final] at h
    · simp [Main.goto, MainCtl.final] at h
  | reading todo final =>
    rw [hc] at h
    cases todo <;> cases final <;> simp [MainCtl.final] at h ⊢
  | drainStart after =>
    rw [hc] at h
    rcases after with _ | (_ | _) <;> simp [Main.goto, MainCtl.final] at h ⊢
  | draining after =>
    rw [hc] at h
    dsimp only at h ⊢
    cases hd : sh.stats.drain <;> rw [hd] at h <;> rcases after with _ | (_ | _) <;>
      simp [hc, Main.goto, MainCtl.final] at h ⊢
  | snapshot final =>
    rw [hc] at h
    cases final <;> simp [MainCtl.final] at h ⊢
  | joining => exact .inl (.inl rfl)
  | done => exact .inl (.inr rfl)

namespace Engine

variable {cfg : Config} {beginNs : ℕ} {c : Conf cfg.threadCount}

/-! ## The main thread returns -/

/-- The main thread counts from the beginning of the run, and it has left its loop only if the stop
is set or about to be. -/
def MainTimed (beginNs : ℕ) (sh : Shared n) (t : Thread) : Prop :=
  ∀ m, t.body = .main m →
    m.beginNs = beginNs ∧ (m.ctl.Left → sh.stop = true ∨ .storeStop ∈ t.ops)

theorem Move.mainTimed {env : Env} {sh : Shared n} {t : Thread} {r : Shared n × Thread}
    (hm : Move cfg env sh none t r) (h : MainTimed beginNs sh t) : MainTimed beginNs r.1 r.2 := by
  cases hm with
  | op body hx => exact fun m hbody => ⟨(h m hbody).1, fun hleft => hx.stop ((h m hbody).2 hleft)⟩
  | @main m r hr =>
    intro m' hbody
    cases hbody
    obtain ⟨hbegin, hold⟩ := h m rfl
    rw [hr]
    refine ⟨(mainStep_beginNs cfg env sh m).trans hbegin, fun hleft => ?_⟩
    rw [(mainStep_frame cfg env sh m).stop]
    rcases mainStep_left hleft with hleft | hstop | hstore
    · exact (hold hleft).imp_right fun hmem => nomatch hmem
    · exact .inl hstop
    · exact .inr hstore
  | stay => exact h

theorem Runs.mainTimed (h : Runs cfg beginNs c) : MainTimed beginNs c.shared (c.locals none) := by
  refine h.thread_invariant (R := MainTimed beginNs) none ?_ ?_ ?_
  · intro m hbody
    cases hbody
    exact ⟨rfl, fun hleft => by simp [MainCtl.Left, MainCtl.final] at hleft⟩
  · intro c e _ _ ht
    exact (step_move cfg none e c.shared _).mainTimed ht
  · intro c j e _ _ _ ht m hbody
    exact ⟨(ht m hbody).1, fun hleft =>
      ((ht m hbody).2 hleft).imp_left (step_move cfg j e c.shared _).stop_mono⟩

/-- The rank of the main thread. -/
def mainRank (atTest : ℕ) (c : Conf n) : ℕ ×ₗ (ℕ ×ₗ ℕ) :=
  match (c.locals none).body with
  | .main m => m.rank atTest c.shared (c.locals none).ops
  | _ => toLex (0, toLex (0, 0))

theorem mainRank_eq {atTest : ℕ} {m : Main} (hm : (c.locals none).body = .main m) :
    mainRank atTest c = m.rank atTest c.shared (c.locals none).ops := by
  simp only [mainRank, hm]

/-- The workers leave it alone. -/
theorem mainRank_worker (atTest : ℕ) (i : Fin cfg.threadCount) (e : Env) :
    mainRank atTest (c.step (step cfg) (some i) e) = mainRank atTest c := by
  have hsame : (c.step (step cfg) (some i) e).locals none = c.locals none :=
    Conf.step_local_ne (Option.some_ne_none i).symm e
  have hdrain := (step_move cfg (some i) e c.shared (c.locals (some i))).turn.drain_eq
  unfold mainRank
  rw [hsame]
  cases (c.locals none).body with
  | main m => simp only [Main.rank, Conf.step_shared, hdrain]
  | _ => rfl

/-- A step of the main thread lowers it, unless the thread waits for the workers or is done. -/
theorem mainRank_lt (h : Runs cfg beginNs c) {atTest : ℕ} {e : Env} {m : Main}
    (hm : (c.locals none).body = .main m)
    (htop : m.ctl = .loopTop → c.shared.stop = true ∨ atTest < 20)
    (htest : m.ctl = .test → 40 ≤ atTest ∨ m.finished cfg e c.shared = true ∧ 13 < atTest)
    (hlast : (c.locals none).ops = [] →
      (m.ctl = .joining → ∀ i, c.shared.running i = false) ∧ m.ctl ≠ .done) :
    mainRank atTest (c.step (step cfg) none e) < mainRank atTest c := by
  have hself := c.step_local_self (f := step cfg) none e
  have hops := h.mainOps
  rw [mainRank_eq hm]
  unfold mainRank
  rw [hself, Conf.step_shared]
  generalize c.locals none = t at hm htop htest hlast hops ⊢
  obtain ⟨ops, body⟩ := t
  dsimp only at hm
  subst hm
  cases ops with
  | nil =>
    obtain ⟨hjoin, hdone⟩ := hlast rfl
    exact mainStep_rank htop htest hjoin hdone
  | cons op rest =>
    have hop := hops op List.mem_cons_self
    subst hop
    show (m.rank atTest { c.shared with stop := true } rest) < _
    simp [Main.rank, Prod.Lex.toLex_lt_toLex]

/-- `Run` has returned. -/
def Over (c : Conf n) : Prop :=
  (c.locals none).ops = [] ∧ (c.locals none).body.mainCtl = some .done

theorem step_over (h : Over c) (e : Env) : c.step (step cfg) none e = c := by
  refine Conf.step_eq_self ?_
  obtain ⟨hops, hctl⟩ := h
  generalize c.locals none = t at hops hctl ⊢
  obtain ⟨ops, body⟩ := t
  cases body with
  | main m =>
    have hdone : m.ctl = .done := Option.some.inj hctl
    have hm : mainStep cfg e c.shared m = (c.shared, [], m) := by
      unfold mainStep
      rw [hdone]
    dsimp only at hops
    subst hops
    simp only [step, bodyStep, hm]
  | _ => cases hctl

section Schedules

variable {sched : ℕ → Option (Fin cfg.threadCount) × Env}

/-- A test that would end the run from some time on sets the stop. -/
theorem stop_comes (h : Runs cfg beginNs c) (hfair : Fair fun k => (sched k).1) (k₀ : ℕ)
    (hlate : ∀ k, k₀ ≤ k → ∀ m, ((c.trace (step cfg) sched k).locals none).body = .main m →
      m.finished cfg (sched k).2 (c.trace (step cfg) sched k).shared = true) :
    ∃ k, k₀ ≤ k ∧ (c.trace (step cfg) sched k).shared.stop = true := by
  by_contra hnever
  push Not at hnever
  have hidle := hfair.eventually_idle (c.trace (step cfg) sched) (mainRank 14)
    (fun _ i => i = none) k₀ fun k hk => ?_
  · obtain ⟨k, -, hidle⟩ := hidle
    exact hidle none rfl
  have hrun : Runs cfg beginNs (c.trace (step cfg) sched k) := Reach.trace h sched k
  rw [Conf.trace_succ]
  cases hturn : (sched k).1 with
  | some i =>
    exact .inr ⟨mainRank_worker 14 i _, fun heq => (nomatch heq), fun _ hbusy => hbusy⟩
  | none =>
    left
    obtain ⟨m, hm⟩ := hrun.main_body
    refine mainRank_lt hrun hm (fun _ => .inr (by decide))
      (fun _ => .inr ⟨hlate k hk m hm, by decide⟩) fun hops => ?_
    have hstay : ¬ m.ctl.Left := by
      intro hleft
      rcases (hrun.mainTimed m hm).2 hleft with hstop | hstore
      · exact hnever k hk hstop
      · rw [hops] at hstore
        cases hstore
    exact ⟨fun hc => absurd (.inl hc) hstay, fun hc => hstay (.inr (by rw [hc]; rfl))⟩

/-- Once the workers have returned, the main thread does. -/
theorem main_returns (h : Runs cfg beginNs c) (hfair : Fair fun k => (sched k).1) (k₀ : ℕ)
    (hstop : ∀ k, k₀ ≤ k → (c.trace (step cfg) sched k).shared.stop = true)
    (hdone : ∀ k, k₀ ≤ k → ∀ i, (c.trace (step cfg) sched k).shared.running i = false) :
    ∃ k, k₀ ≤ k ∧ Over (c.trace (step cfg) sched k) := by
  suffices hidle : ∃ k, k₀ ≤ k ∧ ∀ i : Option (Fin cfg.threadCount),
      ¬ (i = none ∧ ¬ Over (c.trace (step cfg) sched k)) by
    obtain ⟨k, hk, hidle⟩ := hidle
    exact ⟨k, hk, by simpa using hidle none⟩
  refine hfair.eventually_idle (c.trace (step cfg) sched) (mainRank 40)
    (fun c i => i = none ∧ ¬ Over c) k₀ fun k hk => ?_
  have hrun : Runs cfg beginNs (c.trace (step cfg) sched k) := Reach.trace h sched k
  rw [Conf.trace_succ]
  cases hturn : (sched k).1 with
  | some i =>
    have hexited := hrun.exited i (hdone k hk i)
    rw [Conf.step_eq_self (step_exited hexited.1 hexited.2 cfg (some i) _ _)]
    exact .inr ⟨rfl, fun hbusy => (nomatch hbusy.1), fun _ hbusy => hbusy⟩
  | none =>
    by_cases hover : Over (c.trace (step cfg) sched k)
    · rw [step_over hover]
      exact .inr ⟨rfl, fun hbusy => hbusy.2 hover, fun _ hbusy => hbusy⟩
    · left
      obtain ⟨m, hm⟩ := hrun.main_body
      refine mainRank_lt hrun hm (fun _ => .inl (hstop k hk)) (fun _ => .inl le_rfl)
        fun hops => ⟨fun _ => hdone k hk, fun hc => hover ⟨hops, ?_⟩⟩
      rw [hm]
      exact congrArg some hc

/-- What ends a run: the stop, the clock, or the number of requests. -/
def Ends (cfg : Config) (beginNs : ℕ) (sched : ℕ → Option (Fin cfg.threadCount) × Env)
    (c : Conf cfg.threadCount) : Prop :=
  c.shared.stop = true ∨
    cfg.hasDuration = true ∧
      (∃ k₀, ∀ k, k₀ ≤ k → Main.endNs cfg { beginNs := beginNs } ≤ (sched k).2.nowNs) ∨
    cfg.hasDuration = false ∧ cfg.hasRequests = true ∧ cfg.quota ≤ c.shared.counters .completed

theorem trace_stop {k m : ℕ} (h : (c.trace (step cfg) sched k).shared.stop = true) (hm : k ≤ m) :
    (c.trace (step cfg) sched m).shared.stop = true :=
  Conf.trace_keeps (I := fun c : Conf cfg.threadCount => c.shared.stop = true)
    (fun _ _ => (step_move cfg _ _ _ _).stop_mono) h hm

theorem trace_running {k m : ℕ} {i : Fin cfg.threadCount}
    (h : (c.trace (step cfg) sched k).shared.running i = false) (hm : k ≤ m) :
    (c.trace (step cfg) sched m).shared.running i = false := by
  refine Conf.trace_keeps (I := fun c : Conf cfg.threadCount => c.shared.running i = false)
    (fun m _ hi => ?_) h hm
  rw [Conf.trace_succ, Conf.step_shared]
  rcases (step_move cfg (sched m).1 (sched m).2 _ _).running with hsame | ⟨j, -, hup, -⟩
  · rw [hsame]
    exact hi
  · rw [hup]
    by_cases hij : i = j
    · subst hij
      exact Function.update_self _ _ _
    · rw [Function.update_of_ne hij]
      exact hi

theorem trace_completed (sched : ℕ → Option (Fin cfg.threadCount) × Env) (k : ℕ) :
    c.shared.counters .completed ≤ (c.trace (step cfg) sched k).shared.counters .completed := by
  induction k with
  | zero => exact le_rfl
  | succ k ih => exact ih.trans ((step_move cfg _ _ _ _).counters_le (fun heq => nomatch heq))

/-- The stop is set in the end. -/
theorem ends_stop (h : Runs cfg beginNs c) (hfair : Fair fun k => (sched k).1)
    (hends : Ends cfg beginNs sched c) : ∃ k, (c.trace (step cfg) sched k).shared.stop = true := by
  rcases hends with hstop | ⟨hduration, k₀, hclock⟩ | ⟨hduration, hrequests, hquota⟩
  · exact ⟨0, hstop⟩
  · refine (stop_comes h hfair k₀ fun k hk m hm => ?_).imp fun k hk => hk.2
    have hrun : Runs cfg beginNs (c.trace (step cfg) sched k) := Reach.trace h sched k
    have hbegin := (hrun.mainTimed m hm).1
    have hend : m.endNs cfg ≤ (sched k).2.nowNs := by
      rw [Main.endNs, hbegin]
      exact hclock k hk
    simp [Main.finished, hduration, hend]
  · refine (stop_comes h hfair 0 fun k _ m _ => ?_).imp fun k hk => hk.2
    have hle := hquota.trans (trace_completed sched k)
    simp [Main.finished, hduration, hrequests, hle]

/-- **Run returns.** Take a state of a run in which the stop is set, or in which the number of
requests is completed, or any state of a run with a duration on whose schedule the clock passes the
end. If every thread gets its turn again and again, and from some time on the weak exchanges do not
fail for nothing, then there comes a time when all workers have returned and the main thread has
written the final report and returned. -/
theorem run_returns (cfg : Config) {beginNs : ℕ} {c : Conf cfg.threadCount}
    (h : Runs cfg beginNs c) {sched : ℕ → Option (Fin cfg.threadCount) × Env}
    (hfair : Fair fun k => (sched k).1)
    (hspurious : ∃ k₀, ∀ k, k₀ ≤ k → (sched k).2.spurious = false)
    (hends : Ends cfg beginNs sched c) :
    ∃ k m, (c.trace (step cfg) sched k).locals none = ⟨[], .main m⟩ ∧ m.ctl = .done ∧
      (∀ i, (c.trace (step cfg) sched k).shared.running i = false) ∧
      ∀ counter, m.report.counters counter
        = (c.trace (step cfg) sched k).shared.counters counter := by
  obtain ⟨k₁, hspurious⟩ := hspurious
  obtain ⟨k₂, hstop⟩ := ends_stop h hfair hends
  obtain ⟨k₃, hk₃, hworkers⟩ := workers_return h hfair (max k₁ k₂)
    (fun k hk => trace_stop hstop ((le_max_right _ _).trans hk))
    (fun k hk => hspurious k ((le_max_left _ _).trans hk))
  obtain ⟨k, hk, hops, hctl⟩ := main_returns h hfair k₃
    (fun k hk => trace_stop hstop (((le_max_right _ _).trans hk₃).trans hk))
    (fun k hk i => trace_running (hworkers i) hk)
  have hrun : Runs cfg beginNs (c.trace (step cfg) sched k) := Reach.trace h sched k
  obtain ⟨m, hm⟩ := hrun.main_body
  have hdone : m.ctl = .done := by
    rw [hm] at hctl
    exact Option.some.inj hctl
  exact ⟨k, m, by rw [← hops, ← hm], hdone, fun i => trace_running (hworkers i) hk,
    (hrun.closed hm hdone).counters⟩

end Schedules

/-- One udp connection for one second. -/
def oneSecond : Config where
  protocol := .udp
  host := ascii "a"
  port := 1
  concurrency := 1
  threads := 1
  durationSeconds := 1
  hasDuration := true

theorem oneSecond_worker : 0 < oneSecond.threadCount := by decide

/-- The main thread and the worker in turns, late enough for the run to end. -/
def inTurns (k : ℕ) : Option (Fin oneSecond.threadCount) × Env :=
  (if k % 2 = 0 then none else some ⟨0, oneSecond_worker⟩, { nowNs := 1000000000 })

theorem fair_inTurns : Fair fun k => (inTurns k).1 := by
  intro i k
  cases i with
  | none => exact ⟨2 * k, by omega, by simp [inTurns]⟩
  | some i =>
    refine ⟨2 * k + 1, by omega, ?_⟩
    have hone : i = ⟨0, oneSecond_worker⟩ := Fin.ext (Nat.lt_one_iff.mp i.isLt)
    rw [hone]
    simp [inTurns, Nat.add_mod]

theorem run_returns_second :
    ∃ k m, ((init oneSecond 0).trace (step oneSecond) inTurns k).locals none = ⟨[], .main m⟩ ∧
      m.ctl = .done ∧
      (∀ i, ((init oneSecond 0).trace (step oneSecond) inTurns k).shared.running i = false) ∧
      ∀ counter, m.report.counters counter
        = ((init oneSecond 0).trace (step oneSecond) inTurns k).shared.counters counter :=
  run_returns oneSecond .init fair_inTurns ⟨0, fun _ _ => rfl⟩
    (.inr (.inl ⟨rfl, 0, fun _ _ => le_rfl⟩))

end Engine

end TitanBench
