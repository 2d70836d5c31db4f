import TitanBench.EngineReturn

/-!
# What ends a run

Four things end a run: the clock in duration mode, the number of completed requests in requests
mode, an event-driven worker that cannot go on, and a slot that gives up.

**Notices** (`notices`). A log of the run holds these four, and the clock reading of the final
report. A worker fails by what the network answers: `EventWorker.fails`, `Slot.fails`.

* `stop_iff_notice` — the stop is set, or about to be, exactly when one of the four has happened.
* `run_complete` — so a run in which no worker failed has done what it was asked to do.
-/

namespace TitanBench

open Threads

variable {n : ℕ}

/-! ## Notices -/

/-- The worker cannot go on: its `NetWorker` does not start, does not take a connection or cannot
be polled. -/
def EventWorker.fails (cfg : Config) (env : Env) (w : EventWorker) : Bool :=
  match w.ctl with
  | .start => (w.net.start env.start).2 ≠ .ok
  | .connecting (_ + 1) | .reconnecting .. => (submitConnection cfg env.submit w.net).2.1 ≠ .ok
  | .polling => (NetWorker.pollOnce env.poll { w.net with recvEvents := [] }).2 ≠ .ok
  | _ => false

/-- The slot cannot go on: the TLS library does not start, or it has no try left to connect. -/
def Slot.fails (cfg : Config) (env : Env) (s : Slot) : Bool :=
  match s.ctl with
  | .start => (s.client.init env.ssl).2 ≠ none
  | .connecting => (ensureConnected cfg env.ssl s.client).2 = false ∧ ¬ s.retry < maxRetryPerSession
  | _ => false

inductive Notice (n : ℕ)
  | failed (i : Fin n)
  | satisfied (completed : ℕ)
  | expired (nowNs : ℕ)
  | reported (nowNs : ℕ)
  deriving DecidableEq

/-- The notice ends the run. -/
def Notice.ends : Notice n → Bool
  | .reported _ => false
  | _ => true

/-- The clock reading of the main thread. -/
def Notice.time : Notice n → Option ℕ
  | .expired nowNs | .reported nowNs => some nowNs
  | _ => none

/-- What the next step of the main thread notices. -/
def Main.notices (cfg : Config) (env : Env) (sh : Shared n) (m : Main) : List (Notice n) :=
  match m.ctl with
  | .test =>
    if m.finished cfg env sh then
      [if cfg.hasDuration then .expired env.nowNs else .satisfied (sh.counters .completed)]
    else []
  | .reading [] true => [.reported env.nowNs]
  | _ => []

namespace Engine

/-- What the next step of a thread notices. -/
def noticesOf (cfg : Config) (i : Option (Fin n)) (env : Env) (sh : Shared n) (t : Thread) :
    List (Notice n) :=
  match t.ops, i, t.body with
  | [], none, .main m => m.notices cfg env sh
  | [], some i, .event w => if w.fails cfg env then [.failed i] else []
  | [], some i, .slot s => if s.fails cfg env then [.failed i] else []
  | _, _, _ => []

def notices (cfg : Config) (c : Conf n) (i : Option (Fin n)) (env : Env) : List (Notice n) :=
  noticesOf cfg i env c.shared (c.locals i)

/-- The runs of `cfg` with what was noticed. -/
abbrev NoticedRun (cfg : Config) (beginNs : ℕ) (c : Conf cfg.threadCount)
    (log : List (Notice cfg.threadCount)) : Prop :=
  Logged (step cfg) (notices cfg) (fun _ _ _ => True) (init cfg beginNs) c log

end Engine

/-! ## A step -/

section Step

variable {cfg : Config} {i : Fin n} {env : Env} {sh : Shared n}

theorem storeStop_dataEvent (cfg : Config) (env : Env) (data : Bytes) (old : Session) :
    .storeStop ∉ (EventWorker.dataEvent cfg env data old).1 := by
  have hd := EventWorker.dataEvent_digested cfg env data old
  generalize EventWorker.dataEvent cfg env data old = r at hd
  cases hd with
  | rejected => simp [EventWorker.parseErrorOps]
  | finished => simp [EventWorker.responseOps]
  | _ => simp

/-- Where a worker stores the stop, and where it goes on. -/
theorem EventWorker.Move.storeStop {w : EventWorker} {r : Shared n × List Op × EventWorker}
    (hm : w.Move cfg i env sh r) (h : .storeStop ∈ r.2.1) :
    (w.ctl = .start ∨ w.ctl = .polling ∨ ∃ next, Opens w.ctl next) ∧
      (r.2.2.ctl = .returning ∨ r.2.2.ctl = .closing ∨ r.2.2.ctl = .loopTop) := by
  cases hm with
  | notStarted hc => exact ⟨.inl hc, .inl rfl⟩
  | pollFailed hc => exact ⟨.inr (.inl hc), .inr (.inl rfl)⟩
  | notOpened hopens => exact ⟨.inr (.inr ⟨_, hopens⟩), .inr (.inr rfl)⟩
  | sent => simp [sendDoneOps] at h
  | sendFailed => simp [sendFailedOps] at h
  | errored =>
    unfold errorOps at h
    split_ifs at h <;> simp at h
  | @received ev _ old =>
    have hno := storeStop_dataEvent cfg env ev.data old
    simp [hno] at h
  | _ => simp at h

theorem eventStep_storeStop (w : EventWorker) :
    .storeStop ∈ (eventStep cfg i env sh w).2.1 ↔ w.fails cfg env = true := by
  have hm := EventWorker.eventStep_move cfg i env sh w
  have helse := hm.storeStop
  cases hc : w.ctl with
  | start =>
    unfold eventStep EventWorker.fails
    rw [hc]
    dsimp only
    obtain ⟨net, ec⟩ := w.net.start env.start
    cases ec <;> simp
  | connecting left =>
    cases left with
    | zero => simp [eventStep, EventWorker.fails, hc]
    | succ left =>
      unfold eventStep EventWorker.fails
      rw [hc]
      dsimp only
      rw [EventWorker.createConnection_eq]
      split_ifs with hok <;> simp [hok]
  | reconnecting old events =>
    unfold eventStep EventWorker.fails
    rw [hc]
    dsimp only
    rw [EventWorker.createConnection_eq]
    split_ifs with hok <;> simp [hok]
  | polling =>
    unfold eventStep EventWorker.fails
    rw [hc]
    dsimp only
    obtain ⟨net, ec⟩ := NetWorker.pollOnce env.poll { w.net with recvEvents := [] }
    cases ec <;> simp
  | _ =>
    have hno : .storeStop ∉ (eventStep cfg i env sh w).2.1 := by
      intro hmem
      rcases (helse hmem).1 with hstart | hpoll | ⟨next, hopens⟩
      · rw [hc] at hstart
        cases hstart
      · rw [hc] at hpoll
        cases hpoll
      · rw [hc] at hopens
        cases hopens
    simp [hno, EventWorker.fails, hc]

theorem slotStep_storeStop (s : Slot) :
    .storeStop ∈ (slotStep cfg i env sh s).2.1 ↔ s.fails cfg env = true := by
  cases hc : s.ctl with
  | start =>
    unfold slotStep Slot.fails
    rw [hc]
    dsimp only
    obtain ⟨client, err⟩ := s.client.init env.ssl
    cases err <;> simp
  | connecting =>
    unfold slotStep Slot.fails
    rw [hc]
    dsimp only
    obtain ⟨client, ok⟩ := Slot.ensureConnected cfg env.ssl s.client
    cases ok with
    | true => simp
    | false =>
      dsimp only
      split_ifs with hr <;> simp [hr, Slot.giveUpOps]
  | loopTop =>
    unfold slotStep Slot.fails
    rw [hc]
    dsimp only
    split_ifs <;> simp
  | acquiring pc =>
    unfold slotStep Slot.fails
    rw [hc]
    dsimp only
    rcases quotaStep cfg env.spurious (sh.counters .started) pc with ⟨started, pc' | granted⟩
    · simp
    · cases granted <;> simp
  | waiting pc =>
    unfold slotStep Slot.fails
    rw [hc]
    dsimp only
    rcases rateStep cfg.rateIntervalNs env.nowNs env.spurious sh.nextTokenNs pc with ⟨token, _ | _⟩
    <;> simp
  | performing =>
    unfold slotStep Slot.fails
    rw [hc]
    dsimp only [Slot.performGet]
    split_ifs <;> simp [Slot.resultOps]
  | returning | exited => simp [slotStep, Slot.fails, hc]

theorem mainStep_storeStop (m : Main) :
    .storeStop ∈ (mainStep cfg env sh m).2.1 ↔ ∃ x ∈ m.notices cfg env sh, x.ends = true := by
  unfold mainStep Main.notices
  cases m.ctl with
  | test =>
    dsimp only
    split_ifs <;> simp [Notice.ends]
  | loopTop | joining => dsimp only; split_ifs <;> simp
  | reading todo final => cases todo <;> cases final <;> simp [Notice.ends]
  | draining after =>
    dsimp only
    cases sh.stats.drain with
    | idle => cases after <;> simp
    | _ => simp
  | _ => simp

/-- Where the time of the final report comes from. -/
theorem mainStep_elapsed {m : Main} (hfinal : (mainStep cfg env sh m).2.2.ctl.final = true)
    (hread : ∀ todo, (mainStep cfg env sh m).2.2.ctl ≠ .reading todo true) :
    (m.ctl = .reading [] true ∧
      (mainStep cfg env sh m).2.2.report.elapsedMs = (env.nowNs - m.beginNs) / 1000000) ∨
    (m.ctl.final = true ∧ (∀ todo, m.ctl ≠ .reading todo true) ∧
      (mainStep cfg env sh m).2.2.report.elapsedMs = m.report.elapsedMs) := by
  unfold mainStep at hfinal hread ⊢
  cases hc : m.ctl with
  | loopTop | test =>
    rw [hc] at hfinal
    dsimp only at hfinal
    split_ifs at hfinal <;> cases hfinal
  | reading todo final =>
    rw [hc] at hfinal hread
    cases todo with
    | nil =>
      cases final with
      | false => cases hfinal
      | true => exact .inl ⟨rfl, rfl⟩
    | cons counter todo =>
      cases final with
      | false => cases hfinal
      | true => exact absurd rfl (hread todo)
  | drainStart after =>
    rw [hc] at hfinal
    rcases after with _ | (_ | _)
    · cases hfinal
    · cases hfinal
    · exact .inr ⟨rfl, fun _ heq => (nomatch heq), rfl⟩
  | draining after =>
    rw [hc] at hfinal
    dsimp only at hfinal ⊢
    cases hd : sh.stats.drain <;> rw [hd] at hfinal <;> rcases after with _ | (_ | _) <;>
      first
        | cases hfinal; done
        | (rw [hc] at hfinal; cases hfinal; done)
        | exact .inr ⟨rfl, fun _ heq => (nomatch heq), rfl⟩
  | snapshot final =>
    rw [hc] at hfinal
    cases final with
    | false => cases hfinal
    | true => exact .inr ⟨rfl, fun _ heq => (nomatch heq), rfl⟩
  | joining =>
    rw [hc] at hfinal hread
    dsimp only at hfinal hread
    split_ifs at hfinal hread
    · exact absurd rfl (hread _)
    · rw [hc] at hfinal
      cases hfinal
  | done => exact .inr ⟨rfl, fun _ heq => (nomatch heq), rfl⟩

end Step

/-- What a notice says about the run is so. -/
def Notice.Holds (cfg : Config) (beginNs : ℕ) (sh : Shared n) : Notice n → Prop
  | .satisfied completed =>
    cfg.hasDuration = false ∧ cfg.hasRequests = true ∧ cfg.quota ≤ completed ∧
      completed ≤ sh.counters .completed
  | .expired nowNs =>
    cfg.hasDuration = true ∧ Main.endNs cfg { beginNs := beginNs } ≤ nowNs
  | _ => True

theorem Notice.Holds.mono {cfg : Config} {beginNs : ℕ} {sh sh' : Shared n} {x : Notice n}
    (h : x.Holds cfg beginNs sh) (hle : sh.counters .completed ≤ sh'.counters .completed) :
    x.Holds cfg beginNs sh' := by
  cases x with
  | satisfied completed => exact ⟨h.1, h.2.1, h.2.2.1, h.2.2.2.trans hle⟩
  | _ => exact h

theorem holds_notices {cfg : Config} {beginNs : ℕ} {env : Env} {sh : Shared n} {m : Main}
    (hm : m.beginNs = beginNs) {x : Notice n} (hx : x ∈ m.notices cfg env sh) :
    x.Holds cfg beginNs sh := by
  unfold Main.notices at hx
  split at hx
  · split_ifs at hx with hf hd
    · obtain rfl := List.mem_singleton.mp hx
      have hend : m.endNs cfg ≤ env.nowNs := by simpa [Main.finished, hd] using hf
      rw [Main.endNs, hm] at hend
      exact ⟨hd, hend⟩
    · obtain rfl := List.mem_singleton.mp hx
      have hquota : cfg.hasRequests = true ∧ cfg.quota ≤ sh.counters .completed := by
        simpa [Main.finished, hd] using hf
      exact ⟨by simpa using hd, hquota.1, hquota.2, le_rfl⟩
    · cases hx
  · obtain rfl := List.mem_singleton.mp hx
    trivial
  · cases hx

namespace Engine

variable {cfg : Config}

/-- The stop is set, or a thread is about to set it. -/
def Stopping (c : Conf n) : Prop :=
  c.shared.stop = true ∨ ∃ i, .storeStop ∈ (c.locals i).ops

/-- The operations bring no stop about but the one they store. -/
theorem op_stopping {i : Option (Fin n)} {op : Op} {rest : List Op} {sh : Shared n}
    {r : Shared n × List Op} (hx : op.Exec sh rest i r)
    (h : r.1.stop = true ∨ .storeStop ∈ r.2) : sh.stop = true ∨ .storeStop ∈ op :: rest := by
  cases hx with
  | storeStop => exact .inr List.mem_cons_self
  | record | recording => exact h.imp_right fun hmem => by simpa using hmem
  | _ => exact h.imp_right (List.mem_cons_of_mem _)

/-- A step brings the stop about exactly when it notices something that ends the run. -/
theorem step_stopping (cfg : Config) (i : Option (Fin n)) (env : Env) (sh : Shared n) (t : Thread)
    (hmain : i = none → ∃ m, t.body = .main m) :
    ((step cfg i env sh t).1.stop = true ∨ .storeStop ∈ (step cfg i env sh t).2.ops) ↔
      (sh.stop = true ∨ .storeStop ∈ t.ops) ∨ ∃ x ∈ noticesOf cfg i env sh t, x.ends = true := by
  obtain ⟨ops, body⟩ := t
  cases ops with
  | cons op rest =>
    have hx := execOp_exec i op rest sh
    have hno : ¬ ∃ x ∈ noticesOf cfg i env sh ⟨op :: rest, body⟩, x.ends = true := by
      simp [noticesOf]
    rw [or_iff_left hno]
    exact ⟨op_stopping hx, hx.stop⟩
  | nil =>
    -- the thread's own code leaves the stop alone
    have hown : ∀ {stop : Bool} {ops : List Op} {P : Prop}, stop = sh.stop →
        (.storeStop ∈ ops ↔ P) →
        ((stop = true ∨ .storeStop ∈ ops) ↔
          (sh.stop = true ∨ .storeStop ∈ ([] : List Op)) ∨ P) := by
      rintro stop ops P rfl hops
      simp [hops]
    cases i with
    | none =>
      obtain ⟨m, hm⟩ := hmain rfl
      dsimp only at hm
      subst hm
      exact hown (mainStep_frame cfg env sh m).stop (mainStep_storeStop m)
    | some i =>
      cases body with
      | main m => simp [step, bodyStep, noticesOf]
      | event w =>
        refine hown (EventWorker.eventStep_move cfg i env sh w).stop
          ((eventStep_storeStop w).trans ?_)
        by_cases hf : w.fails cfg env = true <;> simp [noticesOf, hf, Notice.ends]
      | slot s =>
        refine hown (Slot.slotStep_move cfg i env sh s).stop ((slotStep_storeStop s).trans ?_)
        by_cases hf : s.fails cfg env = true <;> simp [noticesOf, hf, Notice.ends]

theorem stopping_split (c : Conf n) (i : Option (Fin n)) :
    Stopping c ↔ (c.shared.stop = true ∨ .storeStop ∈ (c.locals i).ops) ∨
      ∃ j, j ≠ i ∧ .storeStop ∈ (c.locals j).ops := by
  constructor
  · rintro (hstop | ⟨j, hj⟩)
    · exact .inl (.inl hstop)
    · by_cases hij : j = i
      · exact .inl (.inr (hij ▸ hj))
      · exact .inr ⟨j, hij, hj⟩
  · rintro ((hstop | hi) | ⟨j, -, hj⟩)
    · exact .inl hstop
    · exact .inr ⟨i, hi⟩
    · exact .inr ⟨j, hj⟩

section Runs

variable {beginNs : ℕ} {c : Conf cfg.threadCount} {log : List (Notice cfg.threadCount)}

/-- The stop is set, or about to be, exactly when something has ended the run. -/
theorem NoticedRun.stopping_iff (h : NoticedRun cfg beginNs c log) :
    Stopping c ↔ ∃ x ∈ log, x.ends = true := by
  refine h.invariant (I := fun c log => Stopping c ↔ ∃ x ∈ log, x.ends = true) ?_ ?_
  · have hno : ¬ Stopping (init cfg beginNs) := by
      rintro (hstop | ⟨i, hi⟩)
      · cases hstop
      · cases i <;> cases hi
    simp [hno]
  · intro c log i e hc _ ih
    have hruns : Runs cfg beginNs c := hc.reach
    have hown := step_stopping cfg i e c.shared (c.locals i) (fun hi => hi ▸ hruns.main_body)
    have hother : (∃ j, j ≠ i ∧ .storeStop ∈ ((c.step (step cfg) i e).locals j).ops) ↔
        ∃ j, j ≠ i ∧ .storeStop ∈ (c.locals j).ops :=
      exists_congr fun j => and_congr_right fun hj => by rw [Conf.step_local_ne hj]
    rw [stopping_split _ i, hother, Conf.step_shared, Conf.step_local_self, hown,
      or_right_comm, ← stopping_split c i, ih]
    simp [notices, or_and_right, exists_or]

theorem holds_noticesOf {i : Option (Fin n)} {env : Env} {sh : Shared n} {t : Thread}
    (ht : i = none → ∀ m, t.body = .main m → m.beginNs = beginNs) {x : Notice n}
    (hx : x ∈ noticesOf cfg i env sh t) : x.Holds cfg beginNs sh := by
  unfold noticesOf at hx
  split at hx
  · exact holds_notices (ht rfl _ ‹_›) hx
  · split_ifs at hx
    · obtain rfl := List.mem_singleton.mp hx
      trivial
    · cases hx
  · split_ifs at hx
    · obtain rfl := List.mem_singleton.mp hx
      trivial
    · cases hx
  · cases hx

theorem NoticedRun.holds (h : NoticedRun cfg beginNs c log) :
    ∀ x ∈ log, x.Holds cfg beginNs c.shared := by
  refine h.invariant (I := fun c log => ∀ x ∈ log, x.Holds cfg beginNs c.shared) ?_ ?_
  · exact fun x hx => nomatch hx
  · intro c log i e hc _ ih x hx
    have hruns : Runs cfg beginNs c := hc.reach
    have hle : c.shared.counters .completed ≤ (c.step (step cfg) i e).shared.counters .completed :=
      (step_move cfg i e c.shared (c.locals i)).counters_le (fun heq => nomatch heq)
    rcases List.mem_append.mp hx with hx | hx
    · exact (ih x hx).mono hle
    · exact (holds_noticesOf (fun hi m hm => (hruns.mainTimed m (hi ▸ hm)).1) hx).mono hle

/-- **What ends a run.** In every state of every run the stop is set, or a thread is about to set
it, exactly when one of these has happened: in duration mode the main thread saw the clock at the
end or past it, in requests mode it saw the number of requests completed, or a worker could not go
on. A run that has neither a duration nor a number of requests ends only when a worker fails. -/
theorem stop_iff_notice (h : NoticedRun cfg beginNs c log) :
    (Stopping c ↔ ∃ x ∈ log, x.ends = true) ∧ (∀ x ∈ log, x.Holds cfg beginNs c.shared) ∧
      (cfg.hasDuration = false → cfg.hasRequests = false → Stopping c →
        ∃ i, .failed i ∈ log) := by
  refine ⟨h.stopping_iff, h.holds, fun hduration hrequests hstop => ?_⟩
  obtain ⟨x, hx, hends⟩ := h.stopping_iff.mp hstop
  have hholds := h.holds x hx
  cases x with
  | failed i => exact ⟨i, hx⟩
  | satisfied completed =>
    rw [hholds.2.1] at hrequests
    cases hrequests
  | expired nowNs =>
    rw [hholds.1] at hduration
    cases hduration
  | reported nowNs => cases hends

/-- After the workers were joined the main thread has read the clock for its report, and this was
after whatever ended the run. -/
def Timed (beginNs : ℕ) (log : List (Notice n)) (t : Thread) : Prop :=
  ∀ m, t.body = .main m → m.ctl.final = true → (∀ todo, m.ctl ≠ .reading todo true) →
    ∃ before nowNs after, log = before ++ .reported nowNs :: after ∧
      (∃ x ∈ before, x.ends = true) ∧ m.report.elapsedMs = (nowNs - beginNs) / 1000000

theorem Timed.append {t : Thread} (h : Timed beginNs log t) (new : List (Notice cfg.threadCount)) :
    Timed beginNs (log ++ new) t := by
  intro m hm hfinal hread
  obtain ⟨before, nowNs, after, rfl, hends, helapsed⟩ := h m hm hfinal hread
  exact ⟨before, nowNs, after ++ new, by simp, hends, helapsed⟩

theorem NoticedRun.timed (h : NoticedRun cfg beginNs c log) :
    Timed beginNs log (c.locals none) := by
  refine h.invariant (I := fun c log => Timed beginNs log (c.locals none)) ?_ ?_
  · intro m hm hfinal
    cases hm
    cases hfinal
  · intro c log i e hc _ ih
    have hruns : Runs cfg beginNs c := hc.reach
    by_cases hi : none = i
    · subst hi
      rw [Conf.step_local_self]
      have hstopping := NoticedRun.stopping_iff hc
      have htimed := hruns.mainTimed
      unfold notices
      unfold Stopping at hstopping
      have hops : .storeStop ∈ (c.locals none).ops →
          ∃ i, .storeStop ∈ (c.locals i).ops := fun hmem => ⟨none, hmem⟩
      generalize c.locals none = t at ih htimed hops ⊢
      obtain ⟨ops, body⟩ := t
      cases ops with
      | cons op rest => exact (ih.append _)
      | nil =>
        cases body with
        | main m =>
          intro m' hm' hfinal hread
          obtain rfl : (mainStep cfg e c.shared m).2.2 = m' := Body.main.inj hm'
          rcases mainStep_elapsed hfinal hread with ⟨hctl, helapsed⟩ | ⟨hold, hno, helapsed⟩
          · obtain ⟨hbegin, hleft⟩ := htimed m rfl
            have hstop := hleft (.inr (by rw [hctl]; rfl))
            refine ⟨log, e.nowNs, [], by simp [noticesOf, Main.notices, hctl],
              hstopping.mp (hstop.imp_right hops), ?_⟩
            rw [helapsed, hbegin]
          · obtain ⟨before, nowNs, after, hlog, hends, hms⟩ := ih.append _ m rfl hold hno
            exact ⟨before, nowNs, after, hlog, hends, helapsed.trans hms⟩
        | _ => exact ih.append _
    · rw [Conf.step_local_ne hi]
      exact ih.append _

/-- **A run that ends by itself has done what it was asked to do.** Take a finished run in which no
worker failed and the main thread's clock never went back. With a duration it lasted at least that
long, and at least a second, and the final report says so. Without one there was a number of
requests, and the final report counts at least as many as completed; then `Run` reports no error
unless the number was zero. -/
theorem run_complete (h : NoticedRun cfg beginNs c log) (hworked : ∀ i, .failed i ∉ log)
    (hclock : (log.filterMap Notice.time).Pairwise (· ≤ ·)) {m : Main}
    (hm : (c.locals none).body = .main m) (hdone : m.ctl = .done) :
    (cfg.hasDuration = true → (max 1 cfg.durationSeconds).toNat * 1000 ≤ m.report.elapsedMs) ∧
    (cfg.hasDuration = false → cfg.hasRequests = true ∧ cfg.quota ≤ m.report.counters .completed ∧
      (cfg.quota ≠ 0 → Main.runError m.report = none)) := by
  have hruns : Runs cfg beginNs c := h.reach
  obtain ⟨before, nowNs, after, rfl, ⟨x, hx, hends⟩, hms⟩ := h.timed m hm (by rw [hdone]; rfl)
    (by rw [hdone]; exact fun _ heq => nomatch heq)
  have hholds := h.holds x (List.mem_append_left _ hx)
  cases x with
  | failed i => exact absurd (List.mem_append_left _ hx) (hworked i)
  | reported nowNs => cases hends
  | satisfied completed =>
    obtain ⟨hduration, hrequests, hquota, hle⟩ := hholds
    have hcompleted : cfg.quota ≤ m.report.counters .completed := by
      rw [(hruns.closed hm hdone).counters .completed]
      exact hquota.trans hle
    refine ⟨fun hd => ?_, fun _ => ⟨hrequests, hcompleted, fun hne => ?_⟩⟩
    · rw [hduration] at hd
      cases hd
    · unfold Main.runError
      rw [if_neg (by omega)]
  | expired endNs =>
    obtain ⟨hduration, hend⟩ := hholds
    refine ⟨fun _ => ?_, fun hd => ?_⟩
    · rw [List.filterMap_append, List.pairwise_append] at hclock
      have hle : endNs ≤ nowNs :=
        hclock.2.2 endNs (List.mem_filterMap.mpr ⟨_, hx, rfl⟩) nowNs
          (List.mem_filterMap.mpr ⟨_, List.mem_cons_self, rfl⟩)
      rw [hms]
      unfold Main.endNs nsPerSecond at hend
      dsimp only at hend
      omega
    · rw [hduration] at hd
      cases hd

end Runs

/-- The worker sends a request, the second is over, and the run ends. -/
def secondOver : List (Option (Fin oneSecond.threadCount) × Env) :=
  let worker : Option (Fin oneSecond.threadCount) × Env := (some ⟨0, oneSecond_worker⟩, {})
  let main : Option (Fin oneSecond.threadCount) × Env := (none, { nowNs := 1000000000 })
  List.replicate 16 worker ++ List.replicate 4 main ++ List.replicate 40 worker
    ++ List.replicate 60 main

theorem secondOver_log : (init oneSecond 0).log (step oneSecond) (notices oneSecond) secondOver =
    [.expired 1000000000, .reported 1000000000] := by decide +kernel

theorem secondOver_noticed :
    NoticedRun oneSecond 0 ((init oneSecond 0).run (step oneSecond) secondOver)
      [.expired 1000000000, .reported 1000000000] := by
  rw [← secondOver_log]
  exact logged_run _ (runOk_of_forall (fun _ _ _ => trivial) _)

theorem stop_iff_notice_second :
    Stopping ((init oneSecond 0).run (step oneSecond) secondOver) :=
  (stop_iff_notice secondOver_noticed).1.mpr ⟨_, List.mem_cons_self, rfl⟩

theorem run_complete_second :
    ∃ m, (((init oneSecond 0).run (step oneSecond) secondOver).locals none).body = .main m ∧
      1000 ≤ m.report.elapsedMs := by
  obtain ⟨m, hm⟩ := Runs.main_body secondOver_noticed.reach
  have hdone : (((init oneSecond 0).run (step oneSecond) secondOver).locals none).body.mainCtl
      = some .done := by decide +kernel
  rw [hm] at hdone
  exact ⟨m, hm, (run_complete secondOver_noticed (by simp) (by decide) hm
    (Option.some.inj hdone)).1 rfl⟩

end Engine

end TitanBench
