import TitanBench.NetworkHandled

/-!
# The outgoing byte stream

The bytes of a connection leave it in the order in which they were queued. A `Send` command appends
its payload to the queue of the connection, and each call of `send` takes some bytes from the front.

**What is compared.** `accepted` are the bytes `send` took from the connection, `queued` the
payloads of the `Send` commands executed while it was in the table, both over a whole run. While
the connection is in the table they differ by what is still pending. An id names one connection for
the life of the worker, so the bytes of two connections are never mixed.

Main result: `outgoing_stream`.
-/

namespace TitanBench

namespace NetWorker

namespace Polling

/-- The bytes a step makes `send` accept for connection `id`. -/
def accepts (id : ℕ) (p : Polling) : Step → Bytes
  | .dispatch ev =>
    match p.net.flushTarget ev with
    | some (_, conn) =>
      if conn.id = id then flushBytes ev.sends { pending := conn.pendingSend } else []
    | none => []
  | _ => []

/-- The payload a step queues for connection `id`, which has to be in the table. -/
def queues (id : ℕ) (p : Polling) (s : Step) : Bytes :=
  match p.executing s with
  | some (.send k payload) => if k = id ∧ id ∈ p.net.connections then payload else []
  | _ => []

/-- How many bytes a step makes `send` accept, for whatever connection. -/
def sentCount (p : Polling) : Step → ℕ
  | .dispatch ev =>
    match p.net.flushTarget ev with
    | some (_, conn) => (flushBytes ev.sends { pending := conn.pendingSend }).length
    | none => 0
  | _ => 0

/-- The bytes accepted for connection `id` in the visits of a run. -/
def accepted (id : ℕ) (hist : List (Polling × Step)) : Bytes :=
  hist.flatMap fun x => x.1.accepts id x.2

/-- The payloads queued for connection `id` in the visits of a run. -/
def queued (id : ℕ) (hist : List (Polling × Step)) : Bytes :=
  hist.flatMap fun x => x.1.queues id x.2

/-! ## One step -/

/-- What a step does to the stream of connection `id`. -/
structure Streams (id : ℕ) (p : Polling) (s : Step) (w' : NetWorker) : Prop where
  absent : p.net.connections.lookup id = none → p.accepts id s = [] ∧ p.queues id s = []
  front : ∀ conn, p.net.connections.lookup id = some conn →
    p.accepts id s <+: backlog conn.pendingSend ++ p.queues id s
  stays : ∀ conn conn', p.net.connections.lookup id = some conn →
    w'.connections.lookup id = some conn' →
    p.accepts id s ++ backlog conn'.pendingSend = backlog conn.pendingSend ++ p.queues id s
  opens : ∀ conn', p.net.connections.lookup id = none → w'.connections.lookup id = some conn' →
    p.opening s = some id ∧ backlog conn'.pendingSend = []
  bytesSent : w'.bytesSent = p.net.bytesSent + p.sentCount s

variable {p : Polling} {s : Step} {id : ℕ} {w' : NetWorker}

theorem queues_of_executing_none (h : p.executing s = none) : p.queues id s = [] := by
  unfold queues
  rw [h]

/-- A step that neither sends nor queues. -/
theorem streams_thins (haccepts : p.accepts id s = []) (hcount : p.sentCount s = 0)
    (hqueues : p.queues id s = []) (h : Thins p.net w') : Streams id p s w' := by
  refine ⟨fun _ => ⟨haccepts, hqueues⟩, fun conn _ => ?_, fun conn conn' hl hl' => ?_,
    fun conn' hl hl' => ?_, ?_⟩
  · rw [haccepts]
    exact List.nil_prefix
  · have hold := h.lookup id conn' hl'
    rw [hl] at hold
    cases hold
    rw [haccepts, hqueues, List.nil_append, List.append_nil]
  · have hold := h.lookup id conn' hl'
    rw [hl] at hold
    cases hold
  · rw [h.bytesSent, hcount, Nat.add_zero]

/-- A command on which nothing is queued for connection `id`. -/
theorem streams_keeps {create : ℕ → CreateSys} (hqueues : p.queues id (.execute create) = [])
    (hsent : w'.bytesSent = p.net.bytesSent)
    (hkeeps : ∀ conn', w'.connections.lookup id = some conn' →
      (∃ conn, p.net.connections.lookup id = some conn ∧ conn'.pendingSend = conn.pendingSend) ∨
        p.net.connections.lookup id = none ∧ p.opening (.execute create) = some id ∧
          conn'.pendingSend = []) : Streams id p (.execute create) w' := by
  refine ⟨fun _ => ⟨rfl, hqueues⟩, fun conn _ => List.nil_prefix, fun conn conn' hl hl' => ?_,
    fun conn' hl hl' => ?_, hsent⟩
  · rcases hkeeps conn' hl' with ⟨old, hold, hsame⟩ | ⟨hnone, -⟩
    · rw [hl] at hold
      cases hold
      rw [hqueues, hsame, List.append_nil]
      rfl
    · rw [hl] at hnone
      cases hnone
  · rcases hkeeps conn' hl' with ⟨old, hold, -⟩ | ⟨-, hopening, hempty⟩
    · rw [hl] at hold
      cases hold
    · rw [hempty]
      exact ⟨hopening, rfl⟩

theorem streams_handled (hsound : p.net.connections.All fun _ conn => conn.Sound)
    {create : ℕ → CreateSys} {cmd : Command} (hexec : p.executing (.execute create) = some cmd)
    (h : Handled create p.net cmd w') : Streams id p (.execute create) w' := by
  have hopening : p.opening (.execute create) = cmd.opens := by
    unfold opening
    rw [hexec]
    rfl
  have hqueues : (∀ k payload, cmd ≠ .send k payload) → p.queues id (.execute create) = [] := by
    intro hne
    unfold queues
    rw [hexec]
    cases cmd with
    | send k payload => exact absurd rfl (hne k payload)
    | _ => rfl
  have hcreates : ∀ {k}, cmd.opens = some k → ∀ j payload, cmd ≠ .send j payload := by
    rintro k hopens j payload rfl
    cases hopens
  cases h with
  | @opened _ k _ conn _ _ hopens hnew _ _ _ hempty _ _ hconn _ hsent =>
    refine streams_keeps (hqueues (hcreates hopens)) hsent fun conn' hl' => ?_
    rw [hconn] at hl'
    by_cases hk : id = k
    · subst hk
      rw [AList.lookup_insert] at hl'
      cases hl'
      exact .inr ⟨AList.lookup_eq_none.mpr hnew, hopening.trans hopens, hempty⟩
    · rw [AList.lookup_insert_ne hk] at hl'
      exact .inl ⟨conn', hl', rfl⟩
  | refused _ hopens _ _ hconn _ hsent =>
    refine streams_thins rfl rfl (hqueues (hcreates hopens)) ⟨fun k conn hl => ?_, hsent⟩
    rw [← hconn]
    exact hl
  | @removed _ k err hcmd =>
    refine streams_thins rfl rfl (hqueues ?_) (fades_removeConnection p.net k err).toThins
    rcases hcmd with ⟨hopens, -⟩ | rfl
    · exact hcreates hopens
    · intro j payload h
      cases h
  | @sent k payload conn hl _ =>
    have hqueue : p.queues id (.execute create) =
        if k = id ∧ id ∈ p.net.connections then payload else [] := by
      unfold queues
      rw [hexec]
    by_cases hk : k = id
    · subst hk
      rw [if_pos ⟨rfl, mem_of_lookup hl⟩] at hqueue
      refine ⟨fun hnone => ?_, fun _ _ => List.nil_prefix, fun old conn' hold hl' => ?_,
        fun conn' hnone => ?_, (thins_modFd _ _ _).bytesSent⟩
      · rw [hl] at hnone
        cases hnone
      · rw [hl] at hold
        cases hold
        rw [modFd_connections, lookup_setConnection] at hl'
        cases hl'
        rw [hqueue, backlog_concat]
        rfl
      · rw [hl] at hnone
        cases hnone
    · rw [if_neg fun h => hk h.1] at hqueue
      refine streams_keeps hqueue (thins_modFd _ _ _).bytesSent fun conn' hl' => ?_
      rw [modFd_connections] at hl'
      exact .inl ⟨conn', (AList.lookup_insert_ne (Ne.symm hk)).symm.trans hl', rfl⟩
  | @dropped k payload _ hclosed hconn _ hsent =>
    refine streams_thins rfl rfl ?_ ⟨fun j conn hl => ?_, hsent⟩
    · unfold queues
      rw [hexec]
      refine if_neg ?_
      rintro ⟨rfl, hmem⟩
      obtain ⟨conn, hl⟩ := Option.isSome_iff_exists.mp (AList.lookup_isSome.mpr hmem)
      exact (hsound k conn hl).notClosed (hclosed conn hl)
    · rw [← hconn]
      exact hl

/-- The completion of a connect neither sends nor queues. -/
theorem completed_stream {w w' : NetWorker} {conn conn' : Connection}
    (h : Completed id w conn w' conn') :
    w'.bytesSent = w.bytesSent ∧
      ∀ k, k ≠ id → w'.connections.lookup k = w.connections.lookup k := by
  cases h with
  | settled _ => exact ⟨rfl, fun _ _ => rfl⟩
  | connected _ _ =>
    refine ⟨(thins_modFd _ _ _).bytesSent, fun k hk => ?_⟩
    rw [modFd_connections]
    exact AList.lookup_insert_ne hk

/-- A flush, and what comes after it. -/
theorem streams_flushed {ev : ReadyEvent} {k : ℕ} {conn conn' : Connection} {w w'' : NetWorker}
    (htarget : p.net.flushTarget ev = some (w, conn')) (hl : p.net.connections.lookup k = some conn)
    (hid : conn.id = k) (hdone : Completed k p.net conn w conn')
    (h : Thins (w.flushed k conn' (flushLoop ev.sends { pending := conn'.pendingSend })) w'') :
    Streams id p (.dispatch ev) w'' := by
  obtain ⟨hflush, hbytes⟩ := flushLoop_backlog ev.sends { pending := conn'.pendingSend }
  obtain ⟨hsame, hothers⟩ := completed_stream hdone
  have hcount : w''.bytesSent = p.net.bytesSent + p.sentCount (.dispatch ev) := by
    have hsent : p.sentCount (.dispatch ev) =
        (flushBytes ev.sends { pending := conn'.pendingSend }).length := by
      simp only [sentCount, htarget]
    rw [h.bytesSent, hsent, ← hsame]
    exact congrArg (w.bytesSent + ·) (hbytes.trans (Nat.zero_add _))
  have haccepts : p.accepts id (.dispatch ev) =
      if k = id then flushBytes ev.sends { pending := conn'.pendingSend } else [] := by
    simp only [accepts, htarget, hdone.id_eq, hid]
  have hqueues : p.queues id (.dispatch ev) = [] := rfl
  by_cases hk : k = id
  · subst hk
    rw [if_pos rfl] at haccepts
    rw [hdone.pendingSend] at hflush haccepts
    refine ⟨fun hnone => ?_, fun old hold => ?_, fun old new hold hnew => ?_, fun new hnone => ?_,
      hcount⟩
    · rw [hl] at hnone
      cases hnone
    · rw [hl] at hold
      cases hold
      rw [haccepts, hqueues, List.append_nil]
      exact ⟨_, hflush⟩
    · rw [hl] at hold
      cases hold
      have hlast := h.lookup k new hnew
      rw [flushed_lookup] at hlast
      cases hlast
      rw [haccepts, hqueues, List.append_nil, ← hflush, hdone.pendingSend]
    · rw [hl] at hnone
      cases hnone
  · rw [if_neg hk] at haccepts
    have hkept : ∀ new, w''.connections.lookup id = some new →
        p.net.connections.lookup id = some new := by
      intro new hnew
      have hlast := h.lookup id new hnew
      rw [← hothers id (Ne.symm hk)]
      exact (AList.lookup_insert_ne (Ne.symm hk)).symm.trans hlast
    refine ⟨fun _ => ⟨haccepts, hqueues⟩, fun old _ => ?_, fun old new hold hnew => ?_,
      fun new hnone hnew => ?_, hcount⟩
    · rw [haccepts]
      exact List.nil_prefix
    · have hsame := hkept new hnew
      rw [hold] at hsame
      cases hsame
      rw [haccepts, hqueues, List.nil_append, List.append_nil]
    · have hsame := hkept new hnew
      rw [hnone] at hsame
      cases hsame

theorem streams_dispatched {ev : ReadyEvent} (h : Dispatched ev p.net (p.net.flushTarget ev) w') :
    Streams id p (.dispatch ev) w' := by
  generalize htarget : p.net.flushTarget ev = target at h
  have hidle : target = none → Thins p.net w' → Streams id p (.dispatch ev) w' := by
    rintro rfl hthins
    refine streams_thins ?_ ?_ rfl hthins
    · simp only [accepts, htarget]
    · simp only [sentCount, htarget]
  cases h with
  | unknown => exact hidle rfl ⟨fun _ _ hl => hl, rfl⟩
  | removed _ _ => exact hidle rfl (fades_removeConnection _ _ _).toThins
  | reads recvs _ _ => exact hidle rfl (fades_drainRead _ _ _).toThins
  | fails hl hid hdone hst =>
    subst hst
    exact streams_flushed htarget hl hid hdone (fades_removeConnection _ _ _).toThins
  | flushes recvs hl hid hdone hst =>
    subst hst
    exact streams_flushed htarget hl hid hdone
      ((thins_modFd _ _ _).trans (fades_drainRead _ _ _).toThins)

/-- **What a step does to a stream.** -/
theorem step_streams (hkeyed : p.net.WellKeyed)
    (hsound : p.net.connections.All fun _ conn => conn.Sound) (id : ℕ) (s : Step) :
    Streams id p s (p.step s).net := by
  have hdid := step_did hkeyed s
  generalize (p.step s).net = w' at hdid
  cases hdid with
  | fades hexec hno h =>
    refine streams_thins ?_ ?_ (queues_of_executing_none hexec) h.toThins
    · cases s with
      | dispatch ev => exact absurd rfl (hno ev)
      | _ => rfl
    · cases s with
      | dispatch ev => exact absurd rfl (hno ev)
      | _ => rfl
  | handled hexec h => exact streams_handled hsound hexec h
  | dispatched h => exact streams_dispatched h

/-! ## Runs -/

/-- The states of the connections stay sound, with any descriptors. -/
theorem step_sound (hkeyed : p.net.WellKeyed)
    (h : p.net.connections.All fun _ conn => conn.Sound) (s : Step) :
    (p.step s).net.connections.All fun _ conn => conn.Sound := by
  have hdid := step_did hkeyed s
  generalize (p.step s).net = w' at hdid
  cases hdid with
  | fades _ _ hfades => exact hfades.toThins.all h
  | handled _ hcmd =>
    cases hcmd with
    | opened _ _ _ _ _ _ hsound _ hconn _ _ =>
      rw [hconn]
      exact h.insert hsound
    | refused _ _ _ _ hconn _ _ =>
      rw [hconn]
      exact h
    | removed err _ => exact (fades_removeConnection _ _ _).toThins.all h
    | sent hl _ =>
      rw [modFd_connections]
      exact h.insert ((h _ _ hl).follows ⟨rfl, rfl, rfl, .inl rfl⟩)
    | dropped _ hconn _ _ =>
      rw [hconn]
      exact h
  | @dispatched ev _ hev =>
    have hcompleted : ∀ {k conn w conn'}, p.net.connections.lookup k = some conn →
        Completed k p.net conn w conn' →
        (w.connections.All fun _ conn => conn.Sound) ∧ conn'.Sound := by
      intro k conn w conn' hl hdone
      cases hdone with
      | settled _ => exact ⟨h, h k conn hl⟩
      | connected _ _ =>
        have hsound : Connection.Sound { conn with state := .connected } :=
          (h k conn hl).follows ⟨rfl, rfl, rfl, .inr rfl⟩
        refine ⟨?_, hsound⟩
        rw [modFd_connections]
        exact h.insert hsound
    have hflushed : ∀ {k conn w conn'} (st : Flush), p.net.connections.lookup k = some conn →
        Completed k p.net conn w conn' →
        (w.flushed k conn' st).connections.All fun _ conn => conn.Sound := by
      intro k conn w conn' st hl hdone
      obtain ⟨hall, hsound⟩ := hcompleted hl hdone
      exact hall.insert (hsound.follows ⟨rfl, rfl, rfl, .inl rfl⟩)
    generalize p.net.flushTarget ev = target at hev
    cases hev with
    | unknown => exact h
    | removed _ _ => exact (fades_removeConnection _ _ _).toThins.all h
    | reads recvs _ _ => exact (fades_drainRead _ _ _).toThins.all h
    | fails hl _ hdone _ =>
      exact (fades_removeConnection _ _ _).toThins.all (hflushed _ hl hdone)
    | flushes recvs hl _ hdone _ =>
      exact ((thins_modFd _ _ _).trans (fades_drainRead _ _ _).toThins).all (hflushed _ hl hdone)

theorem accepted_concat (id : ℕ) (hist : List (Polling × Step)) (p : Polling) (s : Step) :
    accepted id (hist ++ [(p, s)]) = accepted id hist ++ p.accepts id s := by
  simp [accepted]

theorem queued_concat (id : ℕ) (hist : List (Polling × Step)) (p : Polling) (s : Step) :
    queued id (hist ++ [(p, s)]) = queued id hist ++ p.queues id s := by
  simp [queued]

/-- The state of the stream of connection `id` after a run. -/
structure Stream (id : ℕ) (p : Polling) (hist : List (Polling × Step)) : Prop where
  front : accepted id hist <+: queued id hist
  rest : ∀ conn, p.net.connections.lookup id = some conn →
    accepted id hist ++ backlog conn.pendingSend = queued id hist
  /-- Nothing is queued for a connection that is still to be opened. -/
  unopened : ¬ p.Used id → accepted id hist = [] ∧ queued id hist = []

theorem Stream.step {hist : List (Polling × Step)} (h : Stream id p hist) (hsane : p.Sane)
    (hsound : p.net.connections.All fun _ conn => conn.Sound) (s : Step) :
    Stream id (p.step s) (hist ++ [(p, s)]) := by
  have hstep := step_streams hsane.wellKeyed hsound id s
  cases hl : p.net.connections.lookup id with
  | none =>
    obtain ⟨haccepts, hqueues⟩ := hstep.absent hl
    have haccepted : accepted id (hist ++ [(p, s)]) = accepted id hist := by
      rw [accepted_concat, haccepts, List.append_nil]
    have hqueued : queued id (hist ++ [(p, s)]) = queued id hist := by
      rw [queued_concat, hqueues, List.append_nil]
    refine ⟨?_, fun conn' hl' => ?_, fun hnot => ?_⟩
    · rw [haccepted, hqueued]
      exact h.front
    · -- A connection that is opened now was not opened before.
      obtain ⟨hopening, hempty⟩ := hstep.opens conn' hl hl'
      obtain ⟨hwait, -⟩ := hsane.numbered.opening hopening
      obtain ⟨hnone, hnone'⟩ := h.unopened fun hused => hused.2 hwait
      rw [haccepted, hqueued, hnone, hnone', hempty, List.append_nil]
    · rw [haccepted, hqueued]
      exact h.unopened fun hused => hnot (hused.step s)
  | some conn =>
    have hrest := h.rest conn hl
    refine ⟨?_, fun conn' hl' => ?_, fun hnot => ?_⟩
    · rw [accepted_concat, queued_concat, ← hrest, List.append_assoc]
      exact (List.prefix_append_right_inj _).mpr (hstep.front conn hl)
    · rw [accepted_concat, queued_concat, ← hrest, List.append_assoc, List.append_assoc,
        hstep.stays conn conn' hl hl']
    · exact absurd ((hsane.numbered.used id (mem_of_lookup hl)).step s) hnot

theorem stream_init (id : ℕ) : Stream id {} [] :=
  ⟨List.nil_prefix, fun conn hl => (by cases hl), fun _ => ⟨rfl, rfl⟩⟩

/-- What holds after a run of a new worker. -/
structure Sent (p : Polling) (hist : List (Polling × Step)) : Prop where
  sane : p.Sane
  sound : p.net.connections.All fun _ conn => conn.Sound
  stream : ∀ id, Stream id p hist
  bytesSent : p.net.bytesSent = (hist.map fun x => x.1.sentCount x.2).sum

theorem Sent.step {hist : List (Polling × Step)} (h : Sent p hist) (s : Step) :
    Sent (p.step s) (hist ++ [(p, s)]) := by
  refine ⟨h.sane.step s, step_sound h.sane.wellKeyed h.sound s,
    fun id => (h.stream id).step h.sane h.sound s, ?_⟩
  rw [(step_streams h.sane.wellKeyed h.sound 0 s).bytesSent, h.bytesSent, List.map_append,
    List.sum_append]
  simp

theorem sent_run (steps : List Step) : Sent (Polling.run {} steps) (Polling.visits {} steps) := by
  have hinit : Sent {} [] := ⟨sane_init, Table.all_empty _, stream_init, rfl⟩
  exact @Mealy.history_invariant _ _ Polling.step Sent (fun _ => True)
    (fun _ _ s _ h => h.step s) {} [] hinit steps fun _ _ => trivial

/-- A step has bytes accepted for one connection at most. -/
theorem sentCount_eq (p : Polling) (s : Step) : ∃ id, p.sentCount s = (p.accepts id s).length ∧
    ∀ k, k ≠ id → p.accepts k s = [] := by
  cases s with
  | dispatch ev =>
    cases htarget : p.net.flushTarget ev with
    | none =>
      refine ⟨0, ?_, fun k _ => ?_⟩
      · simp only [sentCount, accepts, htarget, List.length_nil]
      · simp only [accepts, htarget]
    | some target =>
      refine ⟨target.2.id, ?_, fun k hk => ?_⟩
      · simp only [sentCount, accepts, htarget, if_true]
      · simp only [accepts, htarget, if_neg (Ne.symm hk)]
  | _ => exact ⟨0, rfl, fun _ _ => rfl⟩

end Polling

open Polling

/-- **The outgoing byte stream.** After any run of a worker, whatever `send` has answered: the bytes
accepted for a connection are the front of the payloads queued for it, in the order of the `Send`
commands; while the connection is in the table, what it still holds beyond the sent offsets is the
rest; and `bytes_sent` is the number of all bytes accepted, of which each step adds those of one
connection. -/
theorem outgoing_stream (steps : List Step) :
    (∀ id, accepted id (Polling.visits {} steps) <+: queued id (Polling.visits {} steps) ∧
      ∀ conn, (Polling.run {} steps).net.connections.lookup id = some conn →
        accepted id (Polling.visits {} steps) ++ backlog conn.pendingSend =
          queued id (Polling.visits {} steps)) ∧
    (Polling.run {} steps).net.bytesSent =
      ((Polling.visits {} steps).map fun x => x.1.sentCount x.2).sum ∧
    ∀ x ∈ Polling.visits {} steps, ∃ id, x.1.sentCount x.2 = (x.1.accepts id x.2).length ∧
      ∀ k, k ≠ id → x.1.accepts k x.2 = [] := by
  have hsent := sent_run steps
  exact ⟨fun id => ⟨(hsent.stream id).front, (hsent.stream id).rest⟩, hsent.bytesSent,
    fun x _ => sentCount_eq x.1 x.2⟩

end NetWorker

end TitanBench
