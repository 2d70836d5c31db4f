import TitanBench.EngineCharge

/-!
# Dead ends

A run in requests mode ends when enough requests are completed. Until then some worker has to
hold a session. A worker loses a session for good when an error comes after its last retry, and
then it neither counts the requests that will now never be sent nor stops the run.

* `Thread.Promising` — the thread holds a session, is about to have one, or is about to stop the
  run.
* `Move.promising` — a thread stays so, unless it gives up its last session.
* `session_remains` — the runs in which no last session is given up.
* `unresolvable_host` — a run in which one is: the host name is never resolved.
-/

namespace TitanBench

open Threads

/-! ## Threads that keep the run going -/

/-- The worker is creating its connections, or has taken a session out of its map and has not yet
put it back or given it up. -/
def EventCtl.opening : EventCtl → Bool
  | .start | .connecting _ | .retrying .. | .reconnecting .. => true
  | _ => false

namespace Body

/-- The worker has a session in its map. -/
def HoldsSession : Body → Prop
  | .event w => w.sessions.keys ≠ []
  | _ => False

/-- The worker has a session, or will have one. -/
def Live : Body → Prop
  | .event w => w.sessions.keys ≠ [] ∨ w.ctl.opening = true
  | _ => False

/-- What a worker knows of its sessions while it starts: it was given at least one to create. -/
def Opened (cfg : Config) (i : ℕ) : Body → Prop
  | .event w =>
    (w.ctl = .start → cfg.perWorker i ≠ 0) ∧ (w.ctl = .connecting 0 → w.sessions.keys ≠ [])
  | _ => True

/-- The worker is about to close its sessions. -/
def Closing : Body → Prop
  | .event w => w.ctl = .closing
  | _ => False

instance : DecidablePred HoldsSession := fun b =>
  match b with
  | .event w => inferInstanceAs (Decidable (w.sessions.keys ≠ []))
  | .main _ => isFalse id
  | .slot _ => isFalse id

instance : DecidablePred Live := fun b =>
  match b with
  | .event w => inferInstanceAs (Decidable (w.sessions.keys ≠ [] ∨ w.ctl.opening = true))
  | .main _ => isFalse id
  | .slot _ => isFalse id

end Body

namespace Thread

/-- The thread has a session, will have one, or is about to stop the run. -/
def Promising (t : Thread) : Prop := t.body.Live ∨ .storeStop ∈ t.ops

instance (t : Thread) : Decidable t.Promising := inferInstanceAs (Decidable (_ ∨ _))

/-- The thread has a session in hand whose retries are used up. -/
def givesUp (t : Thread) : Bool :=
  match t with
  | ⟨[], .event w⟩ =>
    match w.ctl with
    | .retrying old _ => decide (maxRetryPerSession ≤ old.retries)
    | _ => false
  | _ => false

end Thread

namespace Engine

variable {cfg : Config} {n : ℕ} {env : Env} {sh : Shared n}

/-! ## One step -/

theorem keys_insert (sessions : Table ℕ Session) (id : ℕ) (s : Session) :
    (sessions.insert id s).keys ≠ [] := by
  rw [AList.keys_insert]
  exact List.cons_ne_nil _ _

theorem opened_event {i : Fin n} {w : EventWorker} {r : Shared n × List Op × EventWorker}
    (hm : w.Move cfg i env sh r) (h : (Body.event w).Opened cfg i) :
    (Body.event r.2.2).Opened cfg i := by
  cases hm with
  | goes hg => cases hg <;> exact ⟨(fun h => nomatch h), (fun h => nomatch h)⟩
  | started hc _ =>
    exact ⟨(fun h => nomatch h), fun hzero => absurd (EventCtl.connecting.inj hzero) (h.1 hc)⟩
  | opened session hopens =>
    refine ⟨fun hc => ?_, fun _ => keys_insert _ _ _⟩
    rcases hopens.next with ⟨left, rfl⟩ | ⟨events, rfl⟩ <;> cases hc
  | _ => exact ⟨(fun h => nomatch h), (fun h => nomatch h)⟩

/-- A worker stays promising, unless it gives up its last session. -/
theorem promising_event {i : Fin n} {w : EventWorker} {r : Shared n × List Op × EventWorker}
    (hm : w.Move cfg i env sh r) (hopened : (Body.event w).Opened cfg i)
    (hclosing : w.ctl = .closing → sh.stop = true) (h : (Body.event w).Live) :
    Thread.Promising ⟨r.2.1, .event r.2.2⟩ ∨ sh.stop = true ∨
      (Thread.givesUp ⟨[], .event w⟩ = true ∧ ¬ (Body.event w).HoldsSession) := by
  have hkept : ∀ {w' : EventWorker} (ops : List Op), w'.sessions = w.sessions →
      w.ctl.opening = false → Thread.Promising ⟨ops, .event w'⟩ := by
    intro w' ops hs hno
    rcases h with hkeys | hctl
    · exact .inl (.inl (hs ▸ hkeys))
    · rw [hno] at hctl
      cases hctl
  cases hm with
  | goes hg =>
    cases hg with
    | enter hc => exact .inl (.inl (.inl (hopened.2 hc)))
    | sweep now todo hc => exact .inl (hkept _ rfl (by rw [hc]; rfl))
    | pick hc => exact .inl (hkept _ rfl (by rw [hc]; rfl))
    | gone hc => exact .inl (hkept _ rfl (by rw [hc]; rfl))
    | unknown hc => exact .inl (hkept _ rfl (by rw [hc]; rfl))
    | _ hc => exact .inl (hkept _ rfl (by rw [hc]; rfl))
  | stopped _ hs => exact .inr (.inl hs)
  | started => exact .inl (.inl (.inr rfl))
  | notStarted => exact .inl (.inr (List.mem_singleton_self _))
  | opened => exact .inl (.inl (.inl (keys_insert _ _ _)))
  | notOpened => exact .inl (.inr (List.mem_singleton_self _))
  | requested => exact .inl (.inl (.inl (keys_insert _ _ _)))
  | pollFailed => exact .inl (.inr (List.mem_singleton_self _))
  | errored => exact .inl (.inl (.inr rfl))
  | received => exact .inl (.inl (.inl (keys_insert _ _ _)))
  | retried => exact .inl (.inl (.inr rfl))
  | @givenUp old events hc hno =>
    by_cases hkeys : w.sessions.keys = []
    · by_cases hs : sh.stop = true
      · exact .inr (.inl hs)
      · refine .inr (.inr ⟨?_, fun hne => hne hkeys⟩)
        have hretries : maxRetryPerSession ≤ old.retries := by
          by_contra hlt
          exact hno ⟨not_le.mp hlt, by simpa using hs⟩
        simpa [Thread.givesUp, hc] using hretries
    · exact .inl (.inl (.inl hkeys))
  | closed hc => exact .inr (.inl (hclosing hc))
  | acquires hc _ => exact .inl (hkept _ rfl (by rw [hc]; rfl))
  | refused hc _ => exact .inl (hkept _ rfl (by rw [hc]; rfl))
  | granted hc _ => exact .inl (hkept _ rfl (by rw [hc]; rfl))
  | waits token hc => exact .inl (hkept _ rfl (by rw [hc]; rfl))
  | waited token hc => exact .inl (hkept _ rfl (by rw [hc]; rfl))
  | sent hc => exact .inl (hkept _ rfl (by rw [hc]; rfl))
  | sendFailed hc => exact .inl (hkept _ rfl (by rw [hc]; rfl))
  | polled hc => exact .inl (hkept _ rfl (by rw [hc]; rfl))
  | returned hc => exact .inl (hkept _ rfl (by rw [hc]; rfl))

theorem Move.opened {i : Fin n} {t : Thread} {r : Shared n × Thread}
    (hm : Move cfg env sh (some i) t r) (h : t.body.Opened cfg i) : r.2.body.Opened cfg i := by
  cases hm with
  | op => exact h
  | event hm => exact opened_event hm h
  | slot => trivial
  | stay => exact h

/-- A worker that closes its sessions has seen the stop, or has just stored it. -/
def ClosingOk (sh : Shared n) (t : Thread) : Prop :=
  t.body.Closing → sh.stop = true ∨ .storeStop ∈ t.ops

theorem Move.closingOk {i : Option (Fin n)} {t : Thread} {r : Shared n × Thread}
    (hm : Move cfg env sh i t r) (h : ClosingOk sh t) : ClosingOk r.1 r.2 := by
  intro hclosing
  cases hm with
  | op body hx => exact hx.stop (h hclosing)
  | main => exact absurd hclosing id
  | event hm =>
    cases hm with
    | goes hg => cases hg <;> cases hclosing
    | stopped _ hs => exact .inl hs
    | opened session hopens =>
      rcases hopens.next with ⟨left, rfl⟩ | ⟨events, rfl⟩ <;> cases hclosing
    | pollFailed => exact .inr (List.mem_singleton_self _)
    | _ => cases hclosing
  | slot => exact absurd hclosing id
  | stay => exact h hclosing

theorem Move.promising {i : Option (Fin n)} {t : Thread} {r : Shared n × Thread}
    (hm : Move cfg env sh i t r) (hopened : ∀ k, i = some k → t.body.Opened cfg k)
    (hclosing : ClosingOk sh t) (h : t.Promising) :
    r.2.Promising ∨ r.1.stop = true ∨ (t.givesUp = true ∧ ¬ t.body.HoldsSession) := by
  cases hm with
  | op body hx =>
    rcases h with hlive | hmem
    · exact .inl (.inl hlive)
    · rcases hx.stop (.inr hmem) with hs | hs
      · exact .inr (.inl hs)
      · exact .inl (.inr hs)
  | event hm =>
    have hlive := h.resolve_right (fun hmem => nomatch hmem)
    have hstop := fun hc => (hclosing hc).resolve_right (fun hmem => nomatch hmem)
    rw [hm.stop]
    exact promising_event hm (hopened _ rfl) hstop hlive
  | main => exact absurd (h.resolve_right (fun hmem => nomatch hmem)) id
  | slot => exact absurd (h.resolve_right (fun hmem => nomatch hmem)) id
  | stay => exact .inl h

/-! ## Runs that keep a session -/

/-- The steps that give up no session whose retries are used up, unless the run is over or another
session is left. -/
def Keeps (cfg : Config) (c : Conf n) (i : Option (Fin n)) (_ : Env) : Prop :=
  (c.locals i).givesUp = true → c.shared.stop = false →
    c.shared.counters .completed < cfg.quota →
    (c.locals i).body.HoldsSession ∨ ∃ j, j ≠ i ∧ (c.locals j).Promising

instance (cfg : Config) (c : Conf n) (i : Option (Fin n)) (e : Env) : Decidable (Keeps cfg c i e) :=
  inferInstanceAs (Decidable (_ → _))

variable {beginNs : ℕ} {c : Conf cfg.threadCount}

theorem Runs.opened (h : Runs cfg beginNs c) (i : Fin cfg.threadCount) :
    (c.locals (some i)).body.Opened cfg i := by
  refine h.local_invariant (J := fun t => t.body.Opened cfg i) (some i) ?_ ?_
  · show (initialBody cfg i).Opened cfg i
    unfold initialBody
    split_ifs with hhttps hzero
    · trivial
    · exact ⟨(fun h => nomatch h), (fun h => nomatch h)⟩
    · exact ⟨fun _ => hzero, (fun h => nomatch h)⟩
  · intro c e _ _ ht
    exact (step_move cfg _ e c.shared _).opened ht

theorem Runs.closingOk (h : Runs cfg beginNs c) (i : Option (Fin cfg.threadCount)) :
    ClosingOk c.shared (c.locals i) := by
  refine h.thread_invariant (R := ClosingOk) i ?_ ?_ ?_
  · cases i with
    | none => exact fun h => absurd h id
    | some i =>
      show Body.Closing (initialBody cfg i) → _
      unfold initialBody
      split_ifs <;> exact fun h => nomatch h
  · intro c e _ _ ht
    exact (step_move cfg i e c.shared _).closingOk ht
  · intro c j e _ _ _ ht hclosing
    exact (ht hclosing).imp_left (step_move cfg j e c.shared _).stop_mono

/-- The run is over, or some thread keeps it going. -/
def Going (cfg : Config) (c : Conf n) : Prop :=
  c.shared.stop = true ∨ cfg.quota ≤ c.shared.counters .completed ∨ ∃ i, (c.locals i).Promising

theorem going_init (hp : cfg.protocol ≠ .https) (hconc : 0 < cfg.concurrency) :
    Going cfg (init cfg beginNs) := by
  have hcount : 0 < cfg.threadCount := by
    unfold Config.threadCount
    rw [if_neg hp]
    exact cfg.workers_pos
  have hzero : ¬ cfg.perWorker 0 = 0 := (Config.perWorker_zero_pos hconc).ne'
  refine .inr (.inr ⟨some ⟨0, hcount⟩, .inl ?_⟩)
  show (initialBody cfg 0).Live
  rw [initialBody, if_neg hp, if_neg hzero]
  exact .inr rfl

theorem going_step (hc : Runs cfg beginNs c) (i : Option (Fin cfg.threadCount)) (e : Env)
    (hok : Keeps cfg c i e) (h : Going cfg c) : Going cfg (c.step (step cfg) i e) := by
  have hm := step_move cfg i e c.shared (c.locals i)
  rcases h with hs | hq | ⟨j, hj⟩
  · exact .inl (hm.stop_mono hs)
  · exact .inr (.inl (hq.trans (hm.counters_le (c := .completed) (fun h => nomatch h))))
  · have hother : ∀ k, k ≠ i → (c.locals k).Promising → Going cfg (c.step (step cfg) i e) :=
      fun k hk hpr => .inr (.inr ⟨k, by rwa [Conf.step_local_ne hk]⟩)
    by_cases hji : j = i
    · subst hji
      rcases hm.promising (fun k hk => hk ▸ hc.opened k) (hc.closingOk j) hj with
        hpr | hs | ⟨hgives, hnone⟩
      · exact .inr (.inr ⟨j, by rwa [Conf.step_local_self]⟩)
      · exact .inl hs
      -- The session given up was the last one of its worker.
      · by_cases hs : c.shared.stop = true
        · exact .inl (hm.stop_mono hs)
        · by_cases hq : cfg.quota ≤ c.shared.counters .completed
          · exact .inr (.inl (hq.trans (hm.counters_le (c := .completed) (fun h => nomatch h))))
          · have hleft := hok hgives (by simpa using hs) (not_le.mp hq)
            obtain ⟨k, hk, hpr⟩ := hleft.resolve_left hnone
            exact hother k hk hpr
    · exact hother j hji hj

/-- **No dead end.** With http, tcp or udp and at least one connection, in every run in which no
session is given up while it is the last one: as long as the stop is not set and fewer requests
are completed than asked for, some worker has a session or will have one, or some thread is about
to set the stop. -/
theorem session_remains (cfg : Config) (hp : cfg.protocol ≠ .https) (hconc : 0 < cfg.concurrency)
    {beginNs : ℕ} {c : Conf cfg.threadCount} (h : Reach (step cfg) (Keeps cfg) (init cfg beginNs) c)
    (hstop : c.shared.stop = false) (hleft : c.shared.counters .completed < cfg.quota) :
    (∃ i, (c.locals i).body.Live) ∨ ∃ i, Op.storeStop ∈ (c.locals i).ops := by
  have hgoing := h.invariant (I := Going cfg) (going_init hp hconc)
    fun c i e hc hok ih => going_step hc.reachable i e hok ih
  rcases hgoing with hs | hq | ⟨i, hlive | hmem⟩
  · rw [hstop] at hs
    cases hs
  · exact absurd hq (not_le.mpr hleft)
  · exact .inl ⟨i, hlive⟩
  · exact .inr ⟨i, hmem⟩

/-! ## A host that is never resolved -/

/-- `steps` steps of the one worker of `twoRequests`, while no host name is resolved. -/
def offline (steps : ℕ) : List (Option (Fin twoRequests.threadCount) × Env) :=
  List.replicate steps (firstWorker, { poll := { create := fun _ => { resolved := false } } })

/-- After the first error the session is created again. -/
theorem session_remains_first_retry :
    (∃ i, (((init twoRequests 0).run (step twoRequests) (offline 30)).locals i).body.Live) ∨
      ∃ i, Op.storeStop ∈
        (((init twoRequests 0).run (step twoRequests) (offline 30)).locals i).ops := by
  have hrun : RunOk (step twoRequests) (Keeps twoRequests) (init twoRequests 0) (offline 30) := by
    decide +kernel
  exact session_remains twoRequests (by decide) (by decide) (reach_run _ hrun) (by decide +kernel)
    (by decide +kernel)

/-- After the last retry the only session is gone. One of the two requests is completed, and
nothing stops the run. -/
theorem unresolvable_host :
    ¬ ∀ c, Runs twoRequests 0 c → c.shared.stop = false →
      c.shared.counters .completed < twoRequests.quota →
      (∃ i, (c.locals i).body.Live) ∨ ∃ i, Op.storeStop ∈ (c.locals i).ops := by
  intro h
  have hrun : Runs twoRequests 0 ((init twoRequests 0).run (step twoRequests) (offline 51)) :=
    reachable_run _
  exact absurd (h _ hrun (by decide +kernel) (by decide +kernel)) (by decide +kernel)

end Engine

end TitanBench
