import TitanBench.EngineCharge
import TitanBench.EngineStats

/-!
# Received bytes in the two accounts

The engine's counter adds every data event. The sample of a request carries the size of the data
event that ended its response, and no other.

* `DataEvent.Whole` — the data events whose bytes both accounts count.
* `Runs.bytes_account` — by how much the accounts differ, in every state of every run.
* `received_bytes_agree` — when the final report shows the same number twice.
-/

namespace TitanBench

open Threads

variable {n : ℕ}

/-- A data event as the event loop of `worker` handles it, for session `old`; `stopped` is the stop
flag at that time. -/
structure DataEvent where
  worker : ℕ
  old : Session
  data : Bytes
  stopped : Bool
  deriving DecidableEq

namespace DataEvent

/-- The response is complete. -/
def completes (e : DataEvent) : Bool :=
  (e.old.parser.feed e.data).2 && (e.old.parser.feed e.data).1.done

/-- The response is complete, or rejected. -/
def ends (e : DataEvent) : Bool :=
  !(e.old.parser.feed e.data).2 || (e.old.parser.feed e.data).1.done

/-- The event ends its response, and its size fits the sample. -/
def Whole (e : DataEvent) : Prop := e.data = [] ∨ e.ends = true ∧ e.data.length < 2 ^ 32

instance (e : DataEvent) : Decidable e.Whole := inferInstanceAs (Decidable (_ ∨ _))

/-- The bytes a sample carries. -/
def reported (e : DataEvent) : ℕ := if e.ends then e.data.length % 2 ^ 32 else 0

/-- The bytes no sample carries. -/
def unreported (e : DataEvent) : ℕ := e.data.length - e.reported

theorem reported_add (e : DataEvent) : e.data.length = e.reported + e.unreported := by
  have hle : e.reported ≤ e.data.length := by
    unfold reported
    split_ifs
    · exact Nat.mod_le _ _
    · exact Nat.zero_le _
  unfold unreported
  omega

theorem unreported_eq_zero (e : DataEvent) : e.unreported = 0 ↔ e.Whole := by
  have hadd := e.reported_add
  unfold reported at hadd
  unfold Whole
  rw [← List.length_eq_zero_iff]
  split_ifs at hadd with hends
  · simp only [hends, true_and]
    omega
  · simp only [hends, Bool.false_eq_true, false_and, or_false]
    omega

end DataEvent

/-! ## One step -/

namespace EventWorker

/-- The data event the next step of the worker handles. -/
def incoming (i : Fin n) (stopped : Bool) (w : EventWorker) : List DataEvent :=
  match w.ctl with
  | .handling (ev :: _) =>
    match w.sessions.lookup ev.connId with
    | some old => if ev.isError then [] else [⟨i, old, ev.data, stopped⟩]
    | none => []
  | _ => []

variable {cfg : Config}

/-- The operations handed over for a data event record its reported bytes. -/
theorem weigh_dataEvent (env : Env) (hp : cfg.protocol = .http) (e : DataEvent) :
    owed .bytesReceived (dataEvent cfg env e.data e.old).1 = 0 ∧
      weigh (Op.sampleWeight (·.bytesReceived)) (dataEvent cfg env e.data e.old).1
        = e.reported := by
  unfold dataEvent DataEvent.reported DataEvent.ends
  rw [if_pos hp]
  obtain ⟨parser, accepted⟩ := e.old.parser.feed e.data
  cases accepted with
  | false => exact ⟨by simp [parseErrorOps], by simp [parseErrorOps]⟩
  | true =>
    cases hd : parser.done with
    | false => simp [hd]
    | true =>
      simp only [hd, if_true]
      exact ⟨by simp [owed_response], by simp [responseOps]⟩

variable {i : Fin n} {env : Env} {sh : Shared n} {w : EventWorker}
  {r : Shared n × List Op × EventWorker}

/-- What a step adds to the counter is what its samples carry, and what is unreported. -/
theorem Move.bytes (hp : cfg.protocol = .http) (hm : w.Move cfg i env sh r) :
    owed .bytesReceived r.2.1 = weigh (Op.sampleWeight (·.bytesReceived)) r.2.1
      + ((w.incoming i sh.stop).map DataEvent.unreported).sum := by
  cases hm with
  | goes hg =>
    have hnone : w.incoming i sh.stop = [] := by
      unfold incoming
      cases hg with
      | unknown hc hl => simp only [hc, hl]
      | enter hc | sweep _ _ hc | swept hc | skip hc | pick hc | gone hc | handled hc | stay hc =>
        simp only [hc]
    rw [hnone]
    rfl
  | opened _ hopens | notOpened hopens =>
    have hnone : w.incoming i sh.stop = [] := by
      unfold incoming
      generalize w.ctl = ctl at hopens
      cases hopens <;> rfl
    rw [hnone]
    rfl
  | @received ev events old hc hl hdata =>
    let e : DataEvent := ⟨i, old, ev.data, sh.stop⟩
    have hone : w.incoming i sh.stop = [e] := by
      unfold incoming
      simp only [hc, hl, hdata, Bool.false_eq_true, if_false]
      rfl
    obtain ⟨howed, hsample⟩ := weigh_dataEvent env hp e
    have hadd : ev.data.length = e.reported + e.unreported := e.reported_add
    rw [hone]
    simp only [weigh_cons, Op.adds_add, if_true, Op.sampleWeight_add, Nat.zero_add,
      List.map_singleton, List.sum_singleton]
    calc ev.data.length + owed .bytesReceived (dataEvent cfg env ev.data old).1
        = ev.data.length := by rw [show owed _ _ = 0 from howed, Nat.add_zero]
      _ = e.reported + e.unreported := hadd
      _ = _ := by rw [← hsample]
  | errored hc hl herr =>
    have hnone : w.incoming i sh.stop = [] := by
      unfold incoming
      simp only [hc, hl, herr, if_true]
    rw [hnone]
    unfold errorOps
    split_ifs <;> rfl
  | stopped hc | started hc | notStarted hc | acquires hc | refused hc | granted hc | waits _ hc
  | waited _ hc | sent hc | requested hc | sendFailed hc | polled hc | pollFailed hc
  | retried hc | givenUp hc | closed hc | returned hc =>
    have hnone : w.incoming i sh.stop = [] := by
      unfold incoming
      simp only [hc]
    rw [hnone]
    rfl

end EventWorker

/-- The data event the next step of thread `i` handles. -/
def Thread.incoming (i : Option (Fin n)) (stopped : Bool) (t : Thread) : List DataEvent :=
  match i, t.ops, t.body with
  | some i, [], .event w => w.incoming i stopped
  | _, _, _ => []

theorem Collector.Turn.bytesSummed {c c' : Collector (Fin n)} {i : Option (Fin n)}
    (h : c.Turn i c') (hsum : c.BytesSummed) : c'.BytesSummed := by
  cases h with
  | same => exact hsum
  | create i => exact hsum.createWriter i
  | record i s => exact hsum.recordStep i s
  | drain nowNs => exact hsum.drainStep nowNs

namespace Engine

theorem step_bytes {cfg : Config} (hp : cfg.protocol = .http) (i : Option (Fin n)) (env : Env)
    (sh : Shared n) {t : Thread} (hslot : ∀ s, t.body ≠ .slot s) (hops : t.ops = []) :
    owed .bytesReceived (step cfg i env sh t).2.ops
      = weigh (Op.sampleWeight (·.bytesReceived)) (step cfg i env sh t).2.ops
        + ((t.incoming i sh.stop).map DataEvent.unreported).sum := by
  obtain ⟨ops, body⟩ := t
  subst hops
  cases i with
  | none =>
    cases body with
    | main m =>
      have hf := mainStep_frame cfg env sh m
      show owed _ (mainStep cfg env sh m).2.1 = weigh _ (mainStep cfg env sh m).2.1 + 0
      rcases hf.ops with hops | hops <;> rw [hops] <;> rfl
    | _ => rfl
  | some i =>
    cases body with
    | main m => rfl
    | event w => exact (EventWorker.eventStep_move cfg i env sh w).bytes hp
    | slot s => exact absurd rfl (hslot s)

/-! ## Runs -/

/-- The data events in the order they are handled. -/
def dataLog (c : Conf n) (i : Option (Fin n)) (_ : Env) : List DataEvent :=
  (c.locals i).incoming i c.shared.stop

variable {cfg : Config} {beginNs : ℕ} {c : Conf cfg.threadCount} {log : List DataEvent}

/-- The counter and what is still to be added match the samples, recorded and still to be recorded,
up to the bytes that no sample carries. -/
theorem Runs.bytes_account (hp : cfg.protocol = .http)
    (h : Logged (step cfg) dataLog (fun _ _ _ => True) (init cfg beginNs) c log) :
    c.shared.counters .bytesReceived + ∑ i, owed .bytesReceived (c.locals i).ops
      = c.shared.stats.callsSum (·.bytesReceived)
        + ∑ i, weigh (Op.sampleWeight (·.bytesReceived)) (c.locals i).ops
        + (log.map DataEvent.unreported).sum := by
  refine h.account_eq (v := fun sh => sh.counters .bytesReceived)
    (u := fun sh => sh.stats.callsSum (·.bytesReceived))
    (p := fun _ t => owed .bytesReceived t.ops)
    (q := fun _ t => weigh (Op.sampleWeight (·.bytesReceived)) t.ops) _ ?_ ?_
  · have hops : ∀ i, ((init cfg beginNs).locals i).ops = [] := fun i => by cases i <;> rfl
    simp only [hops, weigh_nil]
    have hcalls : (init cfg beginNs).shared.stats.callsSum (·.bytesReceived) = 0 :=
      Finset.sum_eq_zero fun i _ => rfl
    rw [hcalls]
    rfl
  · intro c i e hc _
    have hruns : Runs cfg beginNs c := hc
    have hslot := Runs.not_slot (by rw [hp]; decide) hruns i
    refine (step_move cfg i e c.shared (c.locals i)).account_gain
      (fun k hk => hk ▸ hruns.writerOk k) (fun hi => hi ▸ hruns.mainOps) (by decide) _
      (step_bytes hp i e c.shared hslot) fun hne => ?_
    unfold dataLog Thread.incoming
    split
    · next heq _ => exact absurd heq hne
    · rfl

theorem Runs.bytesSummed (h : Runs cfg beginNs c) : c.shared.stats.BytesSummed :=
  h.shared (K := fun sh => sh.stats.BytesSummed) rfl
    fun c i e _ _ hsum => (step_move cfg i e c.shared (c.locals i)).turn.bytesSummed hsum

/-- When the run is over and no sample was dropped, the report shows the bytes of all samples. -/
theorem Closed.bytesReceived {m : Main} (hclosed : Closed c.shared m) (h : Runs cfg beginNs c)
    (hdrops : m.report.stats.droppedSamples = 0) :
    m.report.stats.bytesReceived = c.shared.stats.callsSum (·.bytesReceived) := by
  obtain ⟨nowNs, laterNs, hstats⟩ := hclosed.stats
  rw [hstats, snapshot_droppedSamples] at hdrops
  have hnone := h.collector.rejected_nil hclosed.cleared hclosed.idle hdrops
  have hcalls := h.collector.sum_calls hclosed.cleared hclosed.writers (·.bytesReceived)
  simp only [hnone, List.map_nil, List.sum_nil, Finset.sum_const_zero, Nat.add_zero] at hcalls
  rw [hstats, snapshot_bytesReceived, Collector.callsSum, hcalls]
  exact h.bytesSummed

/-- **Received bytes.** When the run is over and no sample was dropped, the two accounts agree if
and only if every data event that was handled ended its response, and fits the 32 bits of a
sample. -/
theorem received_bytes_agree (hp : cfg.protocol = .http)
    (h : Logged (step cfg) dataLog (fun _ _ _ => True) (init cfg beginNs) c log) {m : Main}
    (hm : (c.locals none).body = .main m) (hdone : m.ctl = .done)
    (hdrops : m.report.stats.droppedSamples = 0) :
    m.report.stats.bytesReceived = m.report.counters .bytesReceived ↔ ∀ e ∈ log, e.Whole := by
  have hruns : Runs cfg beginNs c := h.reach
  have hclosed := hruns.closed hm hdone
  have haccount := Runs.bytes_account hp h
  have howed : ∑ i, owed .bytesReceived (c.locals i).ops = 0 :=
    hruns.sum_weigh_eq_zero hclosed.joined rfl
  rw [howed, hruns.sum_weigh_eq_zero hclosed.joined rfl] at haccount
  have hsum : (log.map DataEvent.unreported).sum = 0 ↔ ∀ e ∈ log, e.Whole := by
    simp only [List.sum_eq_zero_iff, List.forall_mem_map, DataEvent.unreported_eq_zero]
  rw [hclosed.bytesReceived hruns hdrops, hclosed.counters, ← hsum]
  omega

/-! ## One request -/

/-- Each event belongs to a request that is completed before the stop, by the event itself or by a
later one of its connection. -/
def Answered : List DataEvent → Prop
  | [] => True
  | e :: log =>
    (e.old.inFlight = true ∧ ∃ e' ∈ e :: log, e'.worker = e.worker ∧
      e'.old.connId = e.old.connId ∧ e'.completes = true ∧ e'.stopped = false) ∧ Answered log

instance Answered.decidable : DecidablePred Answered
  | [] => isTrue trivial
  | _ :: log => haveI := Answered.decidable log; instDecidableAnd

def oneHttpRequest : Config := { twoRequests with requests := 1 }

/-- The worker connects and sends its request, and a poll brings `replies`, one for each call of
`recv`. The main thread sees the request completed, stops the run, joins the worker and makes its
report. -/
def answeredBy (replies : List Bytes) :
    List (Option (Fin oneHttpRequest.threadCount) × Env) :=
  let worker : Option (Fin oneHttpRequest.threadCount) × Env := (some ⟨0, by decide⟩, {})
  let main : Option (Fin oneHttpRequest.threadCount) × Env := (none, {})
  let ready : ReadyEvent :=
    { fd := 5
      mask := { epollIn := true, epollOut := true }
      sends := [.accepted 1000]
      recvs := replies.map .data ++ [.wouldBlock] }
  let poll : Env :=
    { poll := { create := fun _ => { socketFd := some 5 }, wait := .ready [ready] } }
  List.replicate 13 worker ++ [(some ⟨0, by decide⟩, poll)] ++ List.replicate 14 worker
    ++ List.replicate 8 main ++ List.replicate 30 worker ++ List.replicate 50 main

/-- The end of that run. -/
def reported (replies : List Bytes) : Conf oneHttpRequest.threadCount :=
  (init oneHttpRequest 0).run (step oneHttpRequest) (answeredBy replies)

/-- Its data events. -/
def handled (replies : List Bytes) : List DataEvent :=
  (init oneHttpRequest 0).log (step oneHttpRequest) dataLog (answeredBy replies)

theorem logged_answered (replies : List Bytes) :
    Logged (step oneHttpRequest) dataLog (fun _ _ _ => True) (init oneHttpRequest 0)
      (reported replies) (handled replies) :=
  logged_run _ (runOk_of_forall (fun _ _ _ => trivial) _)

/-- The response comes in one data event: the two accounts agree. -/
theorem received_bytes_agree_one_event :
    ∃ m, ((reported [okResponse]).locals none).body = .main m ∧
      m.report.stats.bytesReceived = 38 ∧ m.report.counters .bytesReceived = 38 := by
  obtain ⟨m, hm⟩ := Runs.main_body (logged_answered [okResponse]).reach
  have hend : (((reported [okResponse]).locals none).body.main?.any fun m =>
      m.ctl = .done ∧ m.report.stats.droppedSamples = 0 ∧ m.report.counters .bytesReceived = 38)
        = true := by decide +kernel
  rw [hm] at hend
  obtain ⟨hdone, hdrops, hbytes⟩ := of_decide_eq_true hend
  have hwhole : ∀ e ∈ handled [okResponse], e.Whole := by decide +kernel
  have hagree :=
    (received_bytes_agree rfl (logged_answered [okResponse]) hm hdone hdrops).mpr hwhole
  exact ⟨m, hm, hagree.trans hbytes, hbytes⟩

/-- The response comes in two data events: the sample carries the second one only. -/
theorem received_bytes_differ :
    ¬ ∀ c log, Logged (step oneHttpRequest) dataLog (fun _ _ _ => True) (init oneHttpRequest 0)
        c log →
      ∀ m, (c.locals none).body = .main m → m.ctl = .done → m.report.stats.droppedSamples = 0 →
        Answered log → m.report.stats.bytesReceived = m.report.counters .bytesReceived := by
  intro h
  obtain ⟨m, hm⟩ := Runs.main_body (logged_answered [okResponse.take 20, okResponse.drop 20]).reach
  have hend : (((reported [okResponse.take 20, okResponse.drop 20]).locals none).body.main?.any
      fun m => m.ctl = .done ∧ m.report.stats.droppedSamples = 0 ∧
        m.report.stats.bytesReceived = 18 ∧ m.report.counters .bytesReceived = 38)
          = true := by decide +kernel
  rw [hm] at hend
  obtain ⟨hdone, hdrops, hstats, hbytes⟩ := of_decide_eq_true hend
  have hagree := h _ _ (logged_answered [okResponse.take 20, okResponse.drop 20]) m hm hdone hdrops
    (by decide +kernel)
  omega

end Engine

end TitanBench
