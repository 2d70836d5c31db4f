import TitanBench.NetworkBatch
import TitanBench.NetworkTimeouts

/-!
# Unread data of a connection whose peer has closed

A socket holds data in pieces, and then end of stream. Everything a worker does from now on, polls
with the submissions of other threads in between, either leaves the connection alone, reads the
pieces and then removes it, or removes it unread.

* `NothingLost` — in a run, the connection is left alone as long as no event announces data to read,
  and all pieces come out before the error event.
* `Spares` — what a step must not be to leave the data alone or read it.
* `Fate`, `step_fate` — what one step does to the connection.
* `Polling.nothingLost_iff` — the main result: nothing is lost exactly if each step spares the data.
-/

namespace TitanBench

namespace NetWorker

/-! ## Other connections -/

/-- Nothing is emitted for a connection that nothing is done to. -/
theorem Deeds.silent {S : Set ℕ} {fds : List ℕ} {w w' : NetWorker} (h : Deeds S fds w w')
    (hkeyed : w.WellKeyed) {k : ℕ} (hk : k ∉ S) :
    ∃ events, w'.recvEvents = w.recvEvents ++ events ∧ ofId k events = [] := by
  induction h with
  | quiet hq => exact ⟨[], by rw [hq.recvEvents, List.append_nil], rfl⟩
  | alter _ _ _ _ => exact ⟨[], (List.append_nil _).symm, rfl⟩
  | store _ _ _ _ _ _ => exact ⟨[], (List.append_nil _).symm, rfl⟩
  | close _ => exact ⟨[], (List.append_nil _).symm, rfl⟩
  | @data w id bytes hid _ _ =>
    have hne : id ≠ k := fun heq => hk (heq ▸ hid)
    exact ⟨[dataEvent id bytes], rfl, by simp [ofId, dataEvent, hne]⟩
  | @remove w id conn err hid hl herr _ =>
    have hne : id ≠ k := fun heq => hk (heq ▸ hid)
    exact ⟨[failure id err], removeConnection_failure hl (hkeyed _ _ hl) herr,
      by simp [ofId, failure, hne]⟩
  | trans hfirst _ ih ih' =>
    obtain ⟨l, hlog, hnone⟩ := ih hkeyed
    obtain ⟨l', hlog', hnone'⟩ := ih' (hfirst.reports hkeyed).1
    exact ⟨l ++ l', by rw [hlog', hlog, List.append_assoc], by rw [ofId_append, hnone, hnone']; rfl⟩

/-! ## Commands -/

section Commands

variable {w : NetWorker} {id : ℕ}

/-- A `Send` emits nothing for a connection in the table, and leaves it there. -/
theorem handleSend_present (hid : id ∈ w.connections) (k : ℕ) (payload : Bytes) :
    (∃ events, (w.handleSend k payload).recvEvents = w.recvEvents ++ events ∧
      ofId id events = []) ∧ id ∈ (w.handleSend k payload).connections := by
  unfold handleSend
  cases hl : w.connections.lookup k with
  | none =>
    have hne : k ≠ id := fun heq => AList.lookup_eq_none.mp hl (heq ▸ hid)
    exact ⟨⟨[failure k .connectionNotFound], rfl, by simp [ofId, failure, hne]⟩, hid⟩
  | some conn =>
    dsimp only
    split_ifs
    · exact ⟨⟨[], (List.append_nil _).symm, rfl⟩, hid⟩
    · rw [modFd_recvEvents, modFd_connections]
      exact ⟨⟨[], (List.append_nil _).symm, rfl⟩, (AList.mem_insert _).mpr (.inr hid)⟩

/-- So does a command that opens another connection. -/
theorem Carries.present {create : ℕ → CreateSys} {cmd : Command} {w' : NetWorker}
    (h : Carries create w cmd w') (hkeyed : w.WellKeyed) (hid : id ∈ w.connections) {k : ℕ}
    (hopens : cmd.opens = some k) (hnew : k ∉ w.connections) :
    (∃ events, w'.recvEvents = w.recvEvents ++ events ∧ ofId id events = []) ∧
      id ∈ w'.connections := by
  have hne : id ≠ k := fun heq => hnew (heq ▸ hid)
  cases h with
  | @entered _ j conn _ hopens' _ hconn _ hdeeds =>
    obtain rfl : k = j := Option.some.inj (hopens.symm.trans hopens')
    have hset : (w.setConnection k conn).WellKeyed := Table.All.insert hkeyed hconn
    obtain ⟨events, hlog, hnone⟩ := hdeeds.silent hset hne
    have hbefore : (w.setConnection k conn).connections.lookup id = w.connections.lookup id :=
      AList.lookup_insert_ne hne
    refine ⟨⟨events, hlog, hnone⟩, AList.lookup_isSome.mp ?_⟩
    rw [hdeeds.lookup hne, hbefore]
    exact AList.lookup_isSome.mpr hid
  | @collided _ j hopens' hin _ =>
    exact absurd (Option.some.inj (hopens.symm.trans hopens') ▸ hin) hnew
  | sent _ _ => cases hopens
  | missed _ _ => cases hopens
  | closed _ => cases hopens

/-- So does every command that does not close the connection. -/
theorem handleCommand_present (hkeyed : w.WellKeyed) (hid : id ∈ w.connections)
    (create : ℕ → CreateSys) {cmd : Command} (hnew : ∀ k, cmd.opens = some k → k ∉ w.connections)
    (hclose : cmd ≠ .close id) :
    (∃ events, (w.handleCommand create cmd).recvEvents = w.recvEvents ++ events ∧
      ofId id events = []) ∧ id ∈ (w.handleCommand create cmd).connections := by
  have hcarries := handleCommand_carries create w cmd
  cases cmd with
  | createTcp k endpoint timeoutMs => exact hcarries.present hkeyed hid rfl (hnew k rfl)
  | createUdp k endpoint => exact hcarries.present hkeyed hid rfl (hnew k rfl)
  | send k payload => exact handleSend_present hid k payload
  | close k =>
    have hne : id ≠ k := fun heq => hclose (heq ▸ rfl)
    refine ⟨⟨[], ?_, rfl⟩, ?_⟩
    · rw [List.append_nil]
      exact removeConnection_silent w k
    · show id ∈ (w.removeConnection k .ok).connections
      rw [removeConnection_connections]
      exact AList.mem_erase.mpr ⟨hne, hid⟩

end Commands

namespace Polling

/-! ## The data and the steps -/

/-- If the step reads from the connection, it finds `pieces` and then end of stream. -/
def Unread (id : ℕ) (pieces : List Bytes) (x : Polling × Step) : Prop :=
  ∀ ev ∈ x.2.dispatched, x.1.net.handledFor ev.fd = some id → ev.recvs = closedPeer pieces

instance (id : ℕ) (pieces : List Bytes) (x : Polling × Step) : Decidable (Unread id pieces x) :=
  inferInstanceAs (Decidable (∀ ev ∈ x.2.dispatched, _ → _))

/-- The step dispatches an event that announces data to read on the connection. -/
def Announced (id : ℕ) (x : Polling × Step) : Prop :=
  ∃ ev ∈ x.2.dispatched, x.1.net.handledFor ev.fd = some id ∧ ev.mask.epollIn = true

/-- As long as the connection is in the table, its events lead to `DrainRead` if they announce data,
its connect is not found to have timed out, and it is not closed. -/
def Spares (id : ℕ) (x : Polling × Step) : Prop :=
  ∀ conn, x.1.net.connections.lookup id = some conn →
    match x.2 with
    | .dispatch ev => x.1.net.handledFor ev.fd = some id → ReadsFirst conn ev
    | .checkConnectTimeouts nowNs _ => connectTimedOut nowNs conn = false
    | .execute _ => x.1.taken.head? ≠ some (.close id)
    | .stop => False
    | _ => True

/-- The events of the connection in a run. -/
def eventsOf (id : ℕ) (p : Polling) (steps : List Step) : List RecvEvent :=
  ofId id ((p.visits steps).flatMap emits)

/-- Nothing that waits at the socket of the connection is lost in the run: the connection is still
there, no event has announced data and none of its events is emitted; or all pieces are emitted, in
order, and after them only errors, the first one the failure of the connection if data was
announced. -/
inductive NothingLost (id : ℕ) (pieces : List Bytes) (p : Polling) (steps : List Step) : Prop
  | waiting :
      id ∈ (p.run steps).net.connections → (∀ x ∈ p.visits steps, ¬ Announced id x) →
      p.eventsOf id steps = [] → NothingLost id pieces p steps
  | delivered {rest : List RecvEvent} :
      id ∉ (p.run steps).net.connections →
      p.eventsOf id steps = pieces.map (dataEvent id) ++ rest → (∀ ev ∈ rest, ev.isError = true) →
      ((∃ x ∈ p.visits steps, Announced id x) → rest.head? = some (errorEvent id)) →
      NothingLost id pieces p steps

/-- What a step does to the connection and its data. -/
inductive Fate (id : ℕ) (pieces : List Bytes) (p : Polling) (s : Step) : Prop
  | stays :
      Spares id (p, s) → id ∈ (p.step s).net.connections → ofId id (emits (p, s)) = [] →
      ¬ Announced id (p, s) → Fate id pieces p s
  | reads :
      Spares id (p, s) → id ∉ (p.step s).net.connections →
      ofId id (emits (p, s)) = pieces.map (dataEvent id) ++ [errorEvent id] → Fate id pieces p s
  | drops {rest : List RecvEvent} :
      ¬ Spares id (p, s) → id ∉ (p.step s).net.connections → ofId id (emits (p, s)) = rest →
      (∀ ev ∈ rest, ev.isError = true) →
      (Announced id (p, s) → rest.head? = some (errorEvent id)) → Fate id pieces p s

variable {p : Polling} {id : ℕ} {pieces : List Bytes}

theorem announced_mem {x : Polling × Step} (h : Announced id x) : id ∈ x.1.net.connections := by
  obtain ⟨ev, -, hmine, -⟩ := h
  simpa using (Option.filter_eq_some_iff.mp hmine).2

theorem announced_dispatch {ev : ReadyEvent} : Announced id (p, .dispatch ev) ↔
    p.net.handledFor ev.fd = some id ∧ ev.mask.epollIn = true := by
  simp [Announced, Step.dispatched]

theorem not_announced {s : Step} (h : s.dispatched = none) : ¬ Announced id (p, s) := by
  simp [Announced, h]

theorem ofId_own {events : List RecvEvent} (h : ∀ ev ∈ events, ev.connId = id) :
    ofId id events = events :=
  List.filter_eq_self.mpr fun ev hev => by simpa using h ev hev

/-! ## One step -/

section Step

variable {conn : Connection}

theorem emits_nil (hlog : (p.step s).net.recvEvents = p.net.recvEvents) : emits (p, s) = [] :=
  emits_eq (by rw [hlog, List.append_nil])

theorem fate_quiet (hsame : (p.step s).net.connections = p.net.connections)
    (hlog : (p.step s).net.recvEvents = p.net.recvEvents) (hid : id ∈ p.net.connections)
    (hspares : Spares id (p, s)) (hannounced : ¬ Announced id (p, s)) : Fate id pieces p s := by
  refine .stays hspares (hsame ▸ hid) ?_ hannounced
  rw [emits_nil hlog]
  rfl

/-- Nothing is read, and no event tells of it. -/
theorem fate_gone (hout : id ∉ (p.step s).net.connections)
    (hlog : (p.step s).net.recvEvents = p.net.recvEvents) (hspares : ¬ Spares id (p, s))
    (hannounced : ¬ Announced id (p, s)) : Fate id pieces p s := by
  refine .drops hspares hout rfl (fun ev hev => ?_) fun ha => absurd ha hannounced
  rw [emits_nil hlog] at hev
  cases hev

theorem fate_dispatch (h : p.Sane) (hl : p.net.connections.lookup id = some conn)
    (hne : ∀ q ∈ pieces, q ≠ []) {ev : ReadyEvent} (hunread : Unread id pieces (p, .dispatch ev)) :
    Fate id pieces p (.dispatch ev) := by
  by_cases hmine : p.net.handledFor ev.fd = some id
  · have hfd : p.net.fdToConn.lookup ev.fd = some id := (Option.filter_eq_some_iff.mp hmine).1
    have hkey := h.wellKeyed id conn hl
    have hspares : Spares id (p, .dispatch ev) ↔ ReadsFirst conn ev := by
      constructor
      · intro hs
        exact hs conn hl hmine
      · intro hok conn' hl' _
        rwa [Option.some.inj (hl'.symm.trans hl)]
    by_cases hok : ReadsFirst conn ev
    · by_cases hin : ev.mask.epollIn = true
      · have hkeyed := (moves_dispatchOut p.net id conn ev).wellKeyed h.wellKeyed
        obtain ⟨hlog, hgone⟩ := dispatch_reads hfd hl hkey hkeyed hne (hunread ev rfl hmine) hok hin
        refine .reads (hspares.mpr hok) (AList.lookup_eq_none.mp hgone) ?_
        rw [emits_eq (by rw [step_dispatch, hlog, List.append_assoc])]
        refine ofId_own fun e he => ?_
        rcases List.mem_append.mp he with he | he
        · obtain ⟨q, -, rfl⟩ := List.mem_map.mp he
          rfl
        · rw [List.mem_singleton.mp he]
          rfl
      · obtain ⟨hlog, conn', hl'⟩ := dispatch_waits hfd hl hkey hok hin
        refine .stays (hspares.mpr hok) (mem_of_lookup hl') ?_
          fun ha => hin (announced_dispatch.mp ha).2
        rw [emits_nil (by rw [step_dispatch, hlog])]
        rfl
    · obtain ⟨hlog, hgone⟩ := dispatch_skips hfd hl hkey hok
      refine @Fate.drops _ _ _ _ [errorEvent id] (fun hs => hok (hspares.mp hs))
        (AList.lookup_eq_none.mp hgone) ?_ (by simp [errorEvent]) fun _ => rfl
      rw [emits_eq (by rw [step_dispatch, hlog])]
      exact ofId_own (by simp [errorEvent])
  · have hdeeds := deeds_dispatch p.net ev h.wellKeyed
    obtain ⟨events, hlog, hnone⟩ := hdeeds.silent h.wellKeyed hmine
    have hkept : (p.step (.dispatch ev)).net.connections.lookup id = some conn :=
      (hdeeds.lookup hmine).trans hl
    refine .stays (fun _ _ hhandled => absurd hhandled hmine) (mem_of_lookup hkept) ?_
      fun ha => hmine (announced_dispatch.mp ha).1
    rw [emits_eq (by rw [step_dispatch, hlog]), hnone]

theorem fate_checkConnectTimeouts (h : p.Sane) (hl : p.net.connections.lookup id = some conn)
    (nowNs : ℤ) (order : List ℕ) : Fate id pieces p (.checkConnectTimeouts nowNs order) := by
  obtain ⟨⟨events, hlog, hall⟩, hrest⟩ := checkConnectTimeouts_spec h.wellKeyed nowNs order
  have hemits : emits (p, .checkConnectTimeouts nowNs order) = events :=
    emits_eq (by rw [step_checkConnectTimeouts, hlog])
  have hafter := hrest id
  rw [hl, Option.filter_some] at hafter
  cases hlate : connectTimedOut nowNs conn with
  | true =>
    rw [hlate] at hafter
    refine .drops (fun hs => ?_) (AList.lookup_eq_none.mp hafter) rfl ?_
      fun ha => absurd ha (not_announced rfl)
    · have hnot : connectTimedOut nowNs conn = false := hs conn hl
      rw [hlate] at hnot
      cases hnot
    · intro ev hev
      rw [hemits] at hev
      obtain ⟨_, _, _, _, rfl⟩ := (hall ev).mp (List.mem_of_mem_filter hev)
      rfl
  | false =>
    rw [hlate] at hafter
    refine .stays (fun conn' hl' => ?_) (mem_of_lookup hafter) ?_ (not_announced rfl)
    · rwa [Option.some.inj (hl'.symm.trans hl)]
    · refine List.filter_eq_nil_iff.mpr fun ev hev => ?_
      rw [hemits] at hev
      obtain ⟨k, conn', hl', hlate', rfl⟩ := (hall ev).mp hev
      have hne : k ≠ id := by
        rintro rfl
        rw [Option.some.inj (hl'.symm.trans hl), hlate] at hlate'
        cases hlate'
      simp [failure, hne]

theorem fate_execute (h : p.Sane) (hid : id ∈ p.net.connections) (create : ℕ → CreateSys) :
    Fate id pieces p (.execute create) := by
  cases ht : p.taken with
  | nil =>
    have hsame := step_execute_nil ht create
    exact fate_quiet (by rw [hsame]) (by rw [hsame]) hid (fun _ _ => by simp [ht])
      (not_announced rfl)
  | cons cmd cmds =>
    have hstep : (p.step (.execute create)).net = p.net.handleCommand create cmd := by
      rw [step_execute_cons ht]
    by_cases hclose : cmd = .close id
    · subst hclose
      have hlog : (p.step (.execute create)).net.recvEvents = p.net.recvEvents := by
        rw [hstep]
        exact removeConnection_silent p.net id
      obtain ⟨conn, hl⟩ := Option.isSome_iff_exists.mp (AList.lookup_isSome.mpr hid)
      have hout : id ∉ (p.step (.execute create)).net.connections := by
        rw [hstep]
        exact AList.lookup_eq_none.mp (removeConnection_lookup p.net id .ok)
      exact fate_gone hout hlog (fun hs => hs conn hl (by simp [ht])) (not_announced rfl)
    · have hnew : ∀ k, cmd.opens = some k → k ∉ p.net.connections := by
        intro k hopens hin
        have hopening : p.opening (.execute create) = some k := by
          simpa [opening, executing, ht] using hopens
        exact (h.numbered.used k hin).2 (h.numbered.opening hopening).1
      obtain ⟨⟨events, hlog, hnone⟩, hin⟩ :=
        handleCommand_present h.wellKeyed hid create hnew hclose
      refine .stays (fun _ _ => by simpa [ht] using hclose) (hstep ▸ hin) ?_ (not_announced rfl)
      rw [emits_eq (by rw [hstep, hlog]), hnone]

/-- Each step leaves the connection alone, reads the data or drops it, and does the last exactly if
it does not spare the data. -/
theorem step_fate (h : p.Sane) (hid : id ∈ p.net.connections) (hne : ∀ q ∈ pieces, q ≠ [])
    {s : Step} (hunread : Unread id pieces (p, s)) : Fate id pieces p s := by
  obtain ⟨conn, hl⟩ := Option.isSome_iff_exists.mp (AList.lookup_isSome.mpr hid)
  have hstarted : p.net.started = true := by
    by_contra hnot
    have hempty := (h.idle (by simpa using hnot)).connections
    rw [hempty] at hl
    cases hl
  cases s with
  | start sys =>
    have hsame : (p.step (.start sys)).net = p.net := by
      rw [step_start, start_started hstarted]
    exact fate_quiet (by rw [hsame]) (by rw [hsame]) hid (fun _ _ => trivial) (not_announced rfl)
  | stop =>
    have hlog : (p.step .stop).net.recvEvents = p.net.recvEvents := (stop_silent p.net).1
    have hout : id ∉ (p.step .stop).net.connections := by
      rw [step_stop]
      simp only [NetWorker.stop, hstarted, Bool.true_eq_false, if_false]
      exact AList.notMem_empty id
    exact fate_gone hout hlog (fun hs => hs conn hl) (not_announced rfl)
  | submit cmd sys =>
    have hsame := submit_sameNet cmd sys p.net
    exact fate_quiet hsame.connections hsame.recvEvents hid (fun _ _ => trivial) (not_announced rfl)
  | clearEvents =>
    have hnone : emits (p, .clearEvents) = [] := List.drop_nil
    exact .stays (fun _ _ => trivial) hid (by rw [hnone]; rfl) (not_announced rfl)
  | take => exact fate_quiet rfl rfl hid (fun _ _ => trivial) (not_announced rfl)
  | execute create => exact fate_execute h hid create
  | checkConnectTimeouts nowNs order => exact fate_checkConnectTimeouts h hl nowNs order
  | dispatch ev => exact fate_dispatch h hl hne hunread

/-- A connection that is gone does not come back, and only errors are reported for it. -/
theorem step_absent (h : p.Sane) (hused : p.Used id) (hid : id ∉ p.net.connections) (s : Step) :
    id ∉ (p.step s).net.connections ∧ ∀ ev ∈ ofId id (emits (p, s)), ev.isError = true := by
  have hopening : p.opening s ≠ some id := fun hopens =>
    hused.2 (h.numbered.opening hopens).1
  refine ⟨fun hin => (step_connections hin).elim hid hopening, ?_⟩
  have hsilent : ∀ {events : List RecvEvent}, ofId id events = [] →
      (p.step s).net.recvEvents = p.net.recvEvents ++ events →
      ∀ ev ∈ ofId id (emits (p, s)), ev.isError = true := by
    intro events hnone hlog ev hev
    rw [emits_eq hlog, hnone] at hev
    cases hev
  have hquiet : (p.step s).net.recvEvents = p.net.recvEvents →
      ∀ ev ∈ ofId id (emits (p, s)), ev.isError = true := by
    intro hlog
    rw [emits_nil hlog]
    exact List.forall_mem_nil _
  have htells : ∀ {w : NetWorker} {events : List RecvEvent}, id ∉ w.connections →
      Tells id w (p.step s).net events → ofId id events = [] := by
    intro w events hout ht
    cases ht with
    | absent _ _ hnone => exact hnone
    | stays hin _ _ => exact absurd hin hout
    | leaves hin _ _ _ _ _ => exact absurd hin hout
  by_cases hplain : plain s = true
  · obtain ⟨events, hr⟩ := step_reports h hplain
    exact hsilent (htells hid (hr.tells id)) hr.log
  cases s with
  | stop => exact hquiet (stop_silent p.net).1
  | clearEvents =>
    have hnone : emits (p, .clearEvents) = [] := List.drop_nil
    rw [hnone]
    exact fun ev hev => by cases hev
  | execute create =>
    cases ht : p.taken with
    | nil =>
      exact hquiet (by rw [step_execute_nil ht])
    | cons cmd cmds =>
      have hstep : (p.step (.execute create)).net = p.net.handleCommand create cmd := by
        rw [step_execute_cons ht]
      have hopens : p.opening (.execute create) = cmd.opens := by simp [opening, executing, ht]
      have hcarries := handleCommand_carries create p.net cmd
      rw [hstep] at hsilent hquiet htells
      generalize p.net.handleCommand create cmd = w' at hcarries hsilent hquiet htells hstep
      cases hcarries with
      | @entered _ k conn _ hk _ hconn _ hdeeds =>
        have hne : k ≠ id := by
          rintro rfl
          exact hopening (hopens.trans hk)
        have hset : (p.net.setConnection k conn).WellKeyed := Table.All.insert h.wellKeyed hconn
        obtain ⟨-, events, hr⟩ := hdeeds.reports hset
        refine hsilent (htells ?_ (hr.tells id)) hr.log
        intro hin
        exact ((AList.mem_insert _).mp hin).elim (fun heq => hne heq.symm) hid
      | @collided _ k hk hin _ =>
        have hwait := (h.numbered.opening (hopens.trans hk)).1
        exact absurd hwait (h.numbered.used k hin).2
      | sent _ hdeeds =>
        obtain ⟨-, events, hr⟩ := hdeeds.reports h.wellKeyed
        exact hsilent (htells hid (hr.tells id)) hr.log
      | missed _ hq =>
        intro ev hev
        rw [emits_eq (by rw [hstep, hq.recvEvents]; rfl)] at hev
        rw [List.mem_singleton.mp (List.mem_of_mem_filter hev)]
        rfl
      | closed k => exact hquiet (removeConnection_silent p.net k)
  | _ => exact absurd rfl hplain

end Step

/-! ## Runs -/

section Runs

theorem eventsOf_cons (id : ℕ) (p : Polling) (s : Step) (steps : List Step) :
    p.eventsOf id (s :: steps) = ofId id (emits (p, s)) ++ (p.step s).eventsOf id steps := by
  unfold eventsOf
  rw [visits, Mealy.visits_cons, List.flatMap_cons, ofId_append]

theorem absent_run (h : p.Sane) (hused : p.Used id) (hid : id ∉ p.net.connections)
    (steps : List Step) :
    id ∉ (p.run steps).net.connections ∧ (∀ x ∈ p.visits steps, id ∉ x.1.net.connections) ∧
      ∀ ev ∈ p.eventsOf id steps, ev.isError = true := by
  induction steps generalizing p with
  | nil => exact ⟨hid, by simp, by simp [eventsOf, ofId]⟩
  | cons s steps ih =>
    obtain ⟨hout, herr⟩ := step_absent h hused hid s
    obtain ⟨hend, hvisits, hrest⟩ := ih (h.step s) (hused.step s) hout
    refine ⟨hend, ?_, ?_⟩
    · rw [visits, Mealy.visits_cons]
      exact List.forall_mem_cons.mpr ⟨hid, hvisits⟩
    · rw [eventsOf_cons]
      exact List.forall_mem_append.mpr ⟨herr, hrest⟩

/-- Without a connection there is nothing to lose. -/
theorem spares_of_absent {x : Polling × Step} (h : id ∉ x.1.net.connections) : Spares id x :=
  fun _ hl => absurd (mem_of_lookup hl) h

theorem nothingLost_of_stays {s : Step} {steps : List Step}
    (hnone : ofId id (emits (p, s)) = []) (hannounced : ¬ Announced id (p, s)) :
    NothingLost id pieces p (s :: steps) ↔ NothingLost id pieces (p.step s) steps := by
  have hevents : p.eventsOf id (s :: steps) = (p.step s).eventsOf id steps := by
    rw [eventsOf_cons, hnone, List.nil_append]
  have hvisits : p.visits (s :: steps) = (p, s) :: (p.step s).visits steps := rfl
  constructor
  · intro h
    cases h with
    | waiting hin hall hnone =>
      rw [hvisits] at hall
      exact .waiting hin (List.forall_mem_cons.mp hall).2 (hevents ▸ hnone)
    | delivered hout hall herr hfirst =>
      refine .delivered hout (hevents ▸ hall) herr fun ⟨x, hx, ha⟩ => hfirst ⟨x, ?_, ha⟩
      rw [hvisits]
      exact List.mem_cons_of_mem _ hx
  · intro h
    cases h with
    | waiting hin hall hnone =>
      refine .waiting hin ?_ (hevents.trans hnone)
      rw [hvisits]
      exact List.forall_mem_cons.mpr ⟨hannounced, hall⟩
    | delivered hout hall herr hfirst =>
      refine .delivered hout (hevents.trans hall) herr fun ⟨x, hx, ha⟩ => ?_
      rw [hvisits] at hx
      rcases List.mem_cons.mp hx with rfl | hx
      · exact absurd ha hannounced
      · exact hfirst ⟨x, hx, ha⟩

/-- Only errors come before the pieces, so there are none of the pieces. -/
theorem eq_nil_of_errors {events rest : List RecvEvent} (herr : ∀ ev ∈ events, ev.isError = true)
    (h : events = pieces.map (dataEvent id) ++ rest) : pieces = [] := by
  cases pieces with
  | nil => rfl
  | cons q pieces =>
    have hdata := herr (dataEvent id q) (by rw [h]; exact List.mem_cons_self)
    cases hdata

/-- **Exactly when nothing is lost at the peer's close.** In every reachable state of a worker, a
connection has data at its socket, and its peer has closed. In every run from there, all data is
emitted before the error event and the removal, or still waits because no event has announced it:
if and only if there is no data, or each step spares it while the connection is in the table. -/
theorem nothingLost_iff (past steps : List Step) (id : ℕ) (pieces : List Bytes)
    (hid : id ∈ (run {} past).net.connections) (hne : ∀ q ∈ pieces, q ≠ [])
    (hunread : ∀ x ∈ (run {} past).visits steps, Unread id pieces x) :
    NothingLost id pieces (run {} past) steps ↔
      pieces = [] ∨ ∀ x ∈ (run {} past).visits steps, Spares id x := by
  have hsane := sane_init.run past
  generalize run {} past = p at hid hunread hsane ⊢
  induction steps generalizing p with
  | nil => exact iff_of_true (.waiting hid (by simp) rfl) (.inr (by simp))
  | cons s steps ih =>
    have hvisits : p.visits (s :: steps) = (p, s) :: (p.step s).visits steps := rfl
    rw [hvisits, List.forall_mem_cons] at hunread ⊢
    have hnext := hsane.step s
    have hused := (hsane.numbered.used id hid).step s
    cases step_fate hsane hid hne hunread.1 with
    | stays hspares hin hnone hannounced =>
      have hrest := ih (p.step s) hin hunread.2 hnext
      rw [nothingLost_of_stays hnone hannounced, and_iff_right hspares]
      exact hrest
    | reads hspares hout hall =>
      obtain ⟨hend, habsent, herr⟩ := absent_run hnext hused hout steps
      refine iff_of_true (@NothingLost.delivered _ _ _ _
        (errorEvent id :: (p.step s).eventsOf id steps) hend ?_ ?_ fun _ => rfl)
        (.inr ⟨hspares, fun x hx => spares_of_absent (habsent x hx)⟩)
      · rw [eventsOf_cons, hall, List.append_assoc]
        rfl
      · exact List.forall_mem_cons.mpr ⟨rfl, herr⟩
    | @drops first hspares hout hall herr hfirst =>
      obtain ⟨hend, habsent, herr'⟩ := absent_run hnext hused hout steps
      have hevents : p.eventsOf id (s :: steps) = first ++ (p.step s).eventsOf id steps := by
        rw [eventsOf_cons, hall]
      have herrors := List.forall_mem_append.mpr ⟨herr, herr'⟩
      rw [or_iff_left fun hs => hspares hs.1]
      constructor
      · intro hlost
        cases hlost with
        | waiting hin _ _ => exact absurd hin hend
        | delivered _ hpieces _ _ => exact eq_nil_of_errors herrors (hevents.symm.trans hpieces)
      · rintro rfl
        refine .delivered hend hevents herrors fun ⟨x, hx, ha⟩ => ?_
        rw [hvisits] at hx
        rcases List.mem_cons.mp hx with rfl | hx
        · show (first ++ (p.step s).eventsOf id steps).head? = some (errorEvent id)
          rw [List.head?_append, hfirst ha]
          rfl
        · exact absurd (announced_mem ha) (habsent x hx)

end Runs

/-! ## A response and the close in one event -/

/-- A worker with one connected tcp connection, id 1 on descriptor 5. -/
def connectedSteps : List Step :=
  [.start {}, .submit (.createTcp 0 { host := ascii "h", port := 80 } 3000) {}, .take,
    .execute fun _ => { socketFd := some 5 }]

/-- What `epoll_wait` returns for that connection, with two bytes at its socket. -/
def closingPoll (mask : EpollMask) : List Step :=
  pollSteps { wait := .ready [{ fd := 5, mask := mask, recvs := closedPeer [ascii "hi"] }] }
    (run {} connectedSteps).net

theorem nothingLost_iff_plain :
    NothingLost 1 [ascii "hi"] (run {} connectedSteps) (closingPoll { epollIn := true }) ↔
      [ascii "hi"] = [] ∨
        ∀ x ∈ (run {} connectedSteps).visits (closingPoll { epollIn := true }), Spares 1 x :=
  nothingLost_iff connectedSteps _ 1 _ (by decide) (by decide) (by decide)

/-- Two bytes and the close arrive in one event: only the error event comes out. -/
theorem nothingLost_fails :
    ¬ ∀ (past steps : List Step) (id : ℕ) (pieces : List Bytes),
      id ∈ (run {} past).net.connections → (∀ q ∈ pieces, q ≠ []) →
      (∀ x ∈ (run {} past).visits steps, Unread id pieces x) →
      NothingLost id pieces (run {} past) steps := by
  intro hall
  have hlost := hall connectedSteps (closingPoll { epollIn := true, epollRdHup := true }) 1
    [ascii "hi"] (by decide) (by decide) (by decide)
  cases hlost with
  | waiting hin _ _ =>
    revert hin
    decide
  | delivered _ hpieces _ _ =>
    have hnil := eq_nil_of_errors (by decide) hpieces
    cases hnil

end Polling

end NetWorker

end TitanBench
