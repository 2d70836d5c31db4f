import TitanBench.NetworkDeeds

/-!
# Which connection a readiness event reaches

A batch of readiness events is dispatched by descriptor, one event after the other. When the wake
descriptor is among them, the commands executed for it may close a connection and open another one
under the same descriptor before the event of the old one is looked up.

* `ownerOf` — the connection that has a descriptor; `HandledRight` — an event is handled for the
  connection that owned its descriptor when the batch was returned, or discarded.
* `Reissued` — `socket` has returned the descriptor since, for a connection that is still there.
* `event_owner_iff` — the one exactly when not the other, in every run.
* `event_reaches_other` — a run in which an event reaches the wrong connection.
-/

namespace TitanBench

namespace NetWorker

/-- The connection that has the descriptor. -/
def ownerOf (fd : ℕ) (w : NetWorker) : Option ℕ :=
  (w.connections.entries.find? fun e => e.2.fd = some fd).map (·.1)

/-- An event for the descriptor, returned by `epoll_wait` at `w₀` and dispatched at `w`, is handled
for the connection that owned the descriptor at `w₀`, or is discarded if that connection is gone. -/
def HandledRight (w₀ w : NetWorker) (fd : ℕ) : Prop :=
  w.handledFor fd = (w₀.ownerOf fd).filter fun id => id ∈ w.connections

instance (w₀ w : NetWorker) (fd : ℕ) : Decidable (HandledRight w₀ w fd) := by
  unfold HandledRight
  infer_instance

/-- Connection `id` has the descriptor. -/
def Owns (fd id : ℕ) (w : NetWorker) : Prop :=
  ∃ conn, w.connections.lookup id = some conn ∧ conn.fd = some fd

theorem Owns.mem {fd id : ℕ} {w : NetWorker} (h : w.Owns fd id) : id ∈ w.connections := by
  obtain ⟨conn, hl, -⟩ := h
  exact mem_of_lookup hl

section Consistent

variable {w : NetWorker} {fd id : ℕ}

theorem ownerOf_iff (h : w.Consistent) : w.ownerOf fd = some id ↔ w.Owns fd id := by
  have hfound : ∀ e, w.connections.entries.find? (fun e => e.2.fd = some fd) = some e →
      w.Owns fd e.1 := by
    intro e he
    refine ⟨e.2, AList.mem_lookup_iff.mpr (List.mem_of_find?_eq_some he), ?_⟩
    simpa using List.find?_some he
  unfold ownerOf
  constructor
  · intro hmap
    obtain ⟨e, he, rfl⟩ := Option.map_eq_some_iff.mp hmap
    exact hfound e he
  · intro howns
    obtain ⟨conn, hl, hfd⟩ := howns
    cases he : w.connections.entries.find? (fun e => e.2.fd = some fd) with
    | none =>
      have hnot := List.find?_eq_none.mp he ⟨id, conn⟩ (AList.mem_lookup_iff.mp hl)
      exact absurd hfd (by simpa using hnot)
    | some e =>
      obtain ⟨conn', hl', hfd'⟩ := hfound e he
      exact congrArg some (h.distinct hl' hl (hfd'.trans hfd.symm))

theorem handledFor_iff (h : w.Consistent) : w.handledFor fd = some id ↔ w.Owns fd id := by
  unfold handledFor
  rw [Option.filter_eq_some_iff]
  constructor
  · rintro ⟨hroute, -⟩
    exact h.route fd id hroute
  · intro howns
    obtain ⟨conn, hl, hfd⟩ := howns
    obtain ⟨fd', hfd', hback⟩ := (h.linked id conn hl).back
    have heq : fd = fd' := Option.some.inj (hfd.symm.trans hfd')
    exact ⟨heq ▸ hback, by simpa using mem_of_lookup hl⟩

/-- Each connection has a descriptor. -/
theorem owns_of_mem (h : w.Consistent) (hid : id ∈ w.connections) : ∃ fd, w.Owns fd id := by
  obtain ⟨conn, hl⟩ := Option.isSome_iff_exists.mp (AList.lookup_isSome.mpr hid)
  obtain ⟨fd, hfd, -⟩ := (h.linked id conn hl).back
  exact ⟨fd, conn, hl, hfd⟩

theorem handledRight_iff {w₀ : NetWorker} (h₀ : w₀.Consistent) (h : w.Consistent) :
    HandledRight w₀ w fd ↔ ∀ id, w.Owns fd id ↔ w₀.Owns fd id ∧ id ∈ w.connections := by
  unfold HandledRight
  rw [Option.ext_iff]
  refine forall_congr' fun id => ?_
  rw [handledFor_iff h, Option.filter_eq_some_iff, ownerOf_iff h₀, decide_eq_true_iff]

end Consistent

/-! ## What becomes of descriptors -/

theorem Deeds.lookup {S : Set ℕ} {fds : List ℕ} {w w' : NetWorker} (h : Deeds S fds w w') {k : ℕ}
    (hk : k ∉ S) : w'.connections.lookup k = w.connections.lookup k := by
  have hne : ∀ {id : ℕ}, id ∈ S → k ≠ id := fun hid heq => hk (heq ▸ hid)
  induction h with
  | quiet hq => rw [hq.connections]
  | alter hid _ _ _ => exact AList.lookup_insert_ne (hne hid)
  | store _ hid _ _ _ _ => exact AList.lookup_insert_ne (hne hid)
  | close _ => rfl
  | data _ _ _ => rfl
  | remove hid _ _ _ =>
    rw [removeConnection_connections]
    exact AList.lookup_erase_ne (hne hid)
  | trans _ _ ih ih' => exact ih'.trans ih

/-- The dispatch of an event leaves every other connection as it is. -/
theorem dispatch_lookup {w : NetWorker} (hkeyed : w.WellKeyed) (ev : ReadyEvent) {k : ℕ}
    (hk : w.handledFor ev.fd ≠ some k) :
    (w.dispatch ev).connections.lookup k = w.connections.lookup k :=
  (deeds_dispatch w ev hkeyed).lookup hk

theorem owns_removeConnection {w : NetWorker} {fd k id : ℕ} {err : NetErrc}
    (howns : (w.removeConnection id err).Owns fd k) : w.Owns fd k := by
  obtain ⟨c, hl, hfd⟩ := howns
  rw [removeConnection_connections] at hl
  by_cases hkid : k = id
  · rw [hkid, AList.lookup_erase] at hl
    cases hl
  · exact ⟨c, (AList.lookup_erase_ne hkid).symm.trans hl, hfd⟩

/-- A connection gets its descriptor when it is opened, and keeps it. -/
theorem Deeds.owns {S : Set ℕ} {fds : List ℕ} {w w' : NetWorker} (h : Deeds S fds w w')
    {fd k : ℕ} (howns : w'.Owns fd k) : w.Owns fd k ∨ k ∈ S ∧ fd ∈ fds := by
  have hother : ∀ {w : NetWorker} {id : ℕ} {conn : Connection}, k ≠ id →
      (w.setConnection id conn).Owns fd k → w.Owns fd k := by
    intro w id conn hne hin
    obtain ⟨c, hl, hfd⟩ := hin
    exact ⟨c, (AList.lookup_insert_ne hne).symm.trans hl, hfd⟩
  induction h with
  | quiet hq =>
    unfold Owns at howns
    rw [hq.connections] at howns
    exact .inl howns
  | @alter w id conn conn' hid hl _ hfd =>
    by_cases hkid : k = id
    · subst hkid
      obtain ⟨c, hc, hcfd⟩ := howns
      rw [lookup_setConnection] at hc
      cases hc
      exact .inl ⟨conn, hl, hfd.symm.trans hcfd⟩
    · exact .inl (hother hkid howns)
  | @store w id conn conn' fd' hid hl _ _ hfd =>
    by_cases hkid : k = id
    · subst hkid
      obtain ⟨c, hc, hcfd⟩ := howns
      rw [lookup_setConnection] at hc
      cases hc
      rw [hfd] at hcfd
      exact .inr ⟨hid, by rw [Option.some.inj hcfd]; exact List.mem_singleton.mpr rfl⟩
    · exact .inl (hother hkid howns)
  | close _ => exact .inl howns
  | data _ _ _ => exact .inl howns
  | remove _ _ _ _ => exact .inl (owns_removeConnection howns)
  | trans _ _ ih ih' =>
    rcases ih' howns with hmid | ⟨hS, hfd⟩
    · exact (ih hmid).imp_right fun ⟨hS, hfd⟩ => ⟨hS, List.mem_append_left _ hfd⟩
    · exact .inr ⟨hS, List.mem_append_right _ hfd⟩

theorem mem_closedEarly {create : ℕ → CreateSys} {w : NetWorker} {cmd : Command} {fd : ℕ}
    (h : fd ∈ (socketOf create w cmd).toList ++ (closedEarly create w cmd).toList) :
    socketOf create w cmd = some fd := by
  unfold closedEarly at h
  rcases List.mem_append.mp h with h | h
  · exact Option.mem_toList.mp h
  · split_ifs at h
    · exact Option.mem_toList.mp h
    · cases h

theorem Carries.owns {create : ℕ → CreateSys} {w w' : NetWorker} {cmd : Command} {fd k : ℕ}
    (h : Carries create w cmd w') (howns : w'.Owns fd k) :
    w.Owns fd k ∨ cmd.opens = some k ∧ socketOf create w cmd = some fd := by
  cases h with
  | @entered _ id conn _ hopens hnew hid hnone hdeeds =>
    rcases hdeeds.owns howns with hset | ⟨rfl, hfd⟩
    · obtain ⟨c, hl, hfd⟩ := hset
      by_cases hkid : k = id
      · rw [hkid, lookup_setConnection] at hl
        cases hl
        rw [hnone] at hfd
        cases hfd
      · exact .inl ⟨c, (AList.lookup_insert_ne hkid).symm.trans hl, hfd⟩
    · exact .inr ⟨hopens, mem_closedEarly hfd⟩
  | collided _ _ _ => exact .inl (owns_removeConnection howns)
  | sent _ hdeeds => exact .inl ((hdeeds.owns howns).resolve_right fun h => nomatch h.2)
  | missed _ hq =>
    unfold Owns at howns
    rw [hq.connections] at howns
    exact .inl howns
  | closed id => exact .inl (owns_removeConnection howns)

theorem owns_congr {w w' : NetWorker} {fd k : ℕ} (hconn : w'.connections = w.connections)
    (howns : w'.Owns fd k) : w.Owns fd k := by
  unfold Owns at howns
  rwa [hconn] at howns

theorem owns_empty {w : NetWorker} {fd k : ℕ} (hconn : w.connections = ∅)
    (howns : w.Owns fd k) : False := by
  obtain ⟨c, hl, -⟩ := howns
  rw [hconn] at hl
  cases hl

namespace Polling

variable {p : Polling} {fd id : ℕ}

/-- A connection has its descriptor from before the step, or is opened by it. -/
theorem owns_step (h : p.Sane) (s : Step) (howns : (p.step s).net.Owns fd id) :
    p.net.Owns fd id ∨ p.opening s = some id ∧ p.socketFd s = some fd := by
  cases s with
  | start sys =>
    rw [step_start] at howns
    by_cases hs : p.net.started = true
    · rw [start_started hs] at howns
      exact .inl howns
    · rcases start_cases (by simpa using hs) sys with ⟨-, hw⟩ | ⟨e, -, -, hw⟩ |
        ⟨e, k, -, -, -, hw⟩ | ⟨e, k, -, -, -, hw⟩ <;> rw [hw] at howns
      · exact .inl howns
      · exact (owns_empty rfl howns).elim
      · exact (owns_empty rfl howns).elim
      · exact .inl howns
  | stop =>
    rw [step_stop] at howns
    unfold NetWorker.stop at howns
    dsimp only at howns
    split_ifs at howns
    · exact .inl howns
    · exact (owns_empty rfl howns).elim
  | submit cmd sys => exact .inl (owns_congr (submit_sameNet cmd sys p.net).connections howns)
  | clearEvents => exact .inl howns
  | take => exact .inl howns
  | execute create =>
    unfold opening executing socketFd
    cases ht : p.taken with
    | nil =>
      rw [step_execute_nil ht] at howns
      exact .inl howns
    | cons cmd cmds =>
      rw [step_execute_cons ht] at howns
      exact (handleCommand_carries create p.net cmd).owns howns
  | checkConnectTimeouts nowNs order =>
    have hdeeds := deeds_checkConnectTimeouts p.net nowNs order
    exact .inl ((hdeeds.owns howns).resolve_right fun h => nomatch h.2)
  | dispatch ev =>
    have hdeeds := deeds_dispatch p.net ev h.wellKeyed
    exact .inl ((hdeeds.owns howns).resolve_right fun h => nomatch h.2)

/-- The same over a run. -/
theorem owns_run (h : p.Sane) {steps : List Step} (howns : (p.run steps).net.Owns fd id) :
    p.net.Owns fd id ∨
      ∃ x ∈ p.visits steps, x.1.opening x.2 = some id ∧ x.1.socketFd x.2 = some fd := by
  induction steps generalizing p with
  | nil => exact .inl howns
  | cons s steps ih =>
    rcases ih (h.step s) howns with hfirst | ⟨x, hx, hopens⟩
    · rcases owns_step h s hfirst with hold | hopens
      · exact .inl hold
      · exact .inr ⟨(p, s), List.mem_cons_self, hopens⟩
    · exact .inr ⟨x, List.mem_cons_of_mem _ hx, hopens⟩

/-- A used id is opened by no later step. -/
theorem used_not_opening (h : p.Sane) (hused : p.Used id) {steps : List Step} {x : Polling × Step}
    (hx : x ∈ p.visits steps) : x.1.opening x.2 ≠ some id := by
  intro hopening
  have hlater : x.1.Used id :=
    @Mealy.visited_invariant _ _ Polling.step (fun p => p.Used id) (fun _ s h => h.step s) p hused
      steps x hx
  exact hlater.2 ((h.visited hx).numbered.opening hopening).1

/-- No two steps open the same id. -/
theorem opening_unique (h : p.Sane) {steps : List Step} {x y : Polling × Step}
    (hx : x ∈ p.visits steps) (hy : y ∈ p.visits steps) (hox : x.1.opening x.2 = some id)
    (hoy : y.1.opening y.2 = some id) : x = y := by
  induction steps generalizing p with
  | nil => cases hx
  | cons s steps ih =>
    have hafter : p.opening s = some id → (p.step s).Used id :=
      fun hopening => (h.numbered.opening hopening).2
    rcases List.mem_cons.mp hx with rfl | hx
    · rcases List.mem_cons.mp hy with rfl | hy
      · rfl
      · exact absurd hoy (used_not_opening (h.step s) (hafter hox) hy)
    · rcases List.mem_cons.mp hy with rfl | hy
      · exact absurd hox (used_not_opening (h.step s) (hafter hoy) hx)
      · exact ih (h.step s) hx hy

/-! ## Batches -/

/-- On the steps from `p₀`, `socket` returns the descriptor for a connection that is still there
after them. -/
def Reissued (p₀ : Polling) (steps : List Step) (fd : ℕ) : Prop :=
  ∃ x ∈ p₀.visits steps, x.1.socketFd x.2 = some fd ∧
    ∃ id ∈ x.1.opening x.2, id ∈ (p₀.run steps).net.connections

instance (p₀ : Polling) (steps : List Step) (fd : ℕ) : Decidable (Reissued p₀ steps fd) := by
  unfold Reissued
  infer_instance

/-- **An event reaches the connection that owned its descriptor exactly when the descriptor was not
reissued.** `steps` lead to the return of `epoll_wait`, `batch` from there to the dispatch of an
event for `fd`: the events before it, the commands executed for the wake descriptor, and whatever
other threads submit. -/
theorem event_owner_iff (steps batch : List Step) (hfresh : FreshSteps {} (steps ++ batch))
    (fd : ℕ) :
    HandledRight (run {} steps).net (run {} (steps ++ batch)).net fd ↔
      ¬ Reissued (run {} steps) batch fd := by
  obtain ⟨hfirst, hrest⟩ := freshSteps_append.mp hfresh
  have hsane : (run {} steps).Sane := sane_init.run steps
  have hc₀ : (run {} steps).net.Consistent := consistent_run (.empty rfl rfl) hfirst
  have hc : ((run {} steps).run batch).net.Consistent := consistent_run hc₀ hrest
  rw [run_append, handledRight_iff hc₀ hc]
  generalize run {} steps = p₀ at hsane hc₀ hc
  -- A connection that was there at first is opened by no step of the batch.
  have hold : ∀ id ∈ p₀.net.connections, ∀ x ∈ p₀.visits batch, x.1.opening x.2 ≠ some id :=
    fun id hid x hx => used_not_opening hsane (hsane.numbered.used id hid) hx
  constructor
  · rintro hright ⟨x, hx, hsocket, id, hopening, hid⟩
    obtain ⟨fd', howns⟩ := owns_of_mem hc hid
    rcases owns_run hsane howns with hfirst | ⟨y, hy, hopens, hfd⟩
    · exact hold id hfirst.mem x hx hopening
    · rw [opening_unique hsane hx hy hopening hopens, hfd] at hsocket
      cases hsocket
      exact hold id ((hright id).mp howns).1.mem x hx hopening
  · intro hnot id
    constructor
    · intro howns
      refine ⟨?_, howns.mem⟩
      refine (owns_run hsane howns).resolve_right ?_
      rintro ⟨x, hx, hopening, hsocket⟩
      exact hnot ⟨x, hx, hsocket, id, hopening, howns.mem⟩
    · rintro ⟨howns₀, hid⟩
      obtain ⟨fd', howns⟩ := owns_of_mem hc hid
      rcases owns_run hsane howns with hfirst | ⟨y, hy, hopening, -⟩
      · obtain ⟨c, hl, hfd⟩ := howns₀
        obtain ⟨c', hl', hfd'⟩ := hfirst
        rw [hl] at hl'
        cases hl'
        rw [hfd] at hfd'
        cases hfd'
        exact howns
      · exact absurd hopening (hold id howns₀.mem y hy)

/-- Connection 1 is set up with descriptor 5. While the worker waits, another thread submits
`cmds`. -/
def untilWait (cmds : List Command) : List Step :=
  [.start {}, .submit (.createTcp 0 { host := ascii "h", port := 80 } 3000) {}, .take,
      .execute fun _ => { socketFd := some 5, connect := .inProgress },
      .checkConnectTimeouts 0 [1]]
    ++ cmds.map fun cmd => .submit cmd {}

/-- The wake descriptor is readable; `socket` returns 5 as soon as it is not open. -/
def wakeUp : ReadyEvent :=
  { fd := 4, create := fun _ => { socketFd := some 5, connect := .inProgress } }

/-- The event of a connection that was closed meanwhile is discarded. -/
theorem event_owner_iff_closed :
    HandledRight (run {} (untilWait [.close 1])).net
      (run {} (untilWait [.close 1] ++
        readySteps (run {} (untilWait [.close 1])).net [wakeUp])).net 5 :=
  (event_owner_iff (untilWait [.close 1])
    (readySteps (run {} (untilWait [.close 1])).net [wakeUp]) (by decide) 5).mpr (by decide)

/-- The other thread also asks for a new connection. -/
def replaceFirst : List Command :=
  [.close 1, .createTcp 0 { host := ascii "h", port := 80 } 3000]

/-- The batch holds the wake descriptor and a hang-up of descriptor 5, which connection 1 owned when
it was returned. The hang-up removes connection 2. -/
theorem event_reaches_other :
    FreshSteps {} (untilWait replaceFirst ++
        readySteps (run {} (untilWait replaceFirst)).net [wakeUp]) ∧
      (run {} (untilWait replaceFirst)).net.ownerOf 5 = some 1 ∧
      ¬ HandledRight (run {} (untilWait replaceFirst)).net
        (run {} (untilWait replaceFirst ++
          readySteps (run {} (untilWait replaceFirst)).net [wakeUp])).net 5 ∧
      (run {} (untilWait replaceFirst ++ readySteps (run {} (untilWait replaceFirst)).net
        [wakeUp, { fd := 5, mask := { epollHup := true } }])).net.recvEvents
        = [failure 2 .ioFailed] := by
  decide

end Polling

end NetWorker

end TitanBench
