import TitanBench.Lib.Handles
import TitanBench.NetworkDeeds

/-!
# Each descriptor is closed once

The worker closes descriptors in the failure branches of its handlers, in `RemoveConnection` and in
`ShutdownAll`. Where `epoll_ctl` refuses a new socket, or `connect` fails on a datagram socket, the
handler closes a descriptor that the connection has got already, and `RemoveConnection` closes it
again.

* `Settles` — what is opened and what is closed on the way from one worker to another.
* `settles_step` — one step of a run.
* `descriptors_closed_once_iff` — exactly when a run closes each descriptor once.
* `descriptors_closed_twice` — a run that does not.
-/

namespace TitanBench

namespace NetWorker

/-- The descriptors closed on the way from `w` to `w'`. -/
def closedSince (w w' : NetWorker) : List ℕ := w'.closed.drop w.closed.length

/-- What was open and `fds` are what is closed on the way and what is open afterwards. -/
def Settles (fds : List ℕ) (w w' : NetWorker) : Prop :=
  w'.closed = w.closed ++ closedSince w w' ∧
    (fds ++ w.openFds).Perm (closedSince w w' ++ w'.openFds)

theorem settles_of {fds : List ℕ} {w w' : NetWorker} {cs : List ℕ}
    (hclosed : w'.closed = w.closed ++ cs)
    (hperm : (fds ++ w.openFds).Perm (cs ++ w'.openFds)) : Settles fds w w' := by
  have hcs : closedSince w w' = cs := by
    unfold closedSince
    rw [hclosed, List.drop_left]
  unfold Settles
  rw [hcs]
  exact ⟨hclosed, hperm⟩

theorem Settles.trans {fds fds' : List ℕ} {w w' w'' : NetWorker} (h : Settles fds w w')
    (h' : Settles fds' w' w'') : Settles (fds ++ fds') w w'' := by
  have hclosed : w''.closed = w.closed ++ (closedSince w w' ++ closedSince w' w'') := by
    rw [h'.1, h.1, List.append_assoc]
  refine settles_of hclosed ?_
  have hperm := h.2
  have hperm' := h'.2
  rw [List.perm_iff_count] at hperm hperm' ⊢
  intro fd
  have h₁ := hperm fd
  have h₂ := hperm' fd
  simp only [List.count_append] at h₁ h₂ ⊢
  omega

/-- Nothing is opened or closed. -/
theorem settles_same {w w' : NetWorker} (hepoll : w'.epollFd = w.epollFd)
    (hwake : w'.wakeFd = w.wakeFd) (hconn : w'.connections = w.connections)
    (hclosed : w'.closed = w.closed) : Settles [] w w' := by
  have hopen : w'.openFds = w.openFds := by
    unfold openFds
    rw [hepoll, hwake, hconn]
  refine @settles_of _ _ _ [] (by rw [hclosed, List.append_nil]) ?_
  rw [hopen]

/-! ## The table -/

/-- The descriptors of the connections. -/
def connFds (connections : Table ℕ Connection) : List ℕ :=
  connections.entries.filterMap (·.2.fd)

theorem openFds_eq (w : NetWorker) :
    w.openFds = w.epollFd.toList ++ w.wakeFd.toList ++ connFds w.connections := rfl

theorem connFds_insert (t : Table ℕ Connection) (id : ℕ) (conn : Connection) :
    connFds (t.insert id conn) = conn.fd.toList ++ connFds (t.erase id) := by
  unfold connFds
  rw [AList.entries_insert]
  cases hfd : conn.fd with
  | none => exact List.filterMap_cons_none hfd
  | some fd => exact List.filterMap_cons_some hfd

theorem connFds_erase {t : Table ℕ Connection} {id : ℕ} {conn : Connection}
    (h : t.lookup id = some conn) : (connFds t).Perm (conn.fd.toList ++ connFds (t.erase id)) := by
  have hperm := (Table.perm_erase h).filterMap (·.2.fd)
  cases hfd : conn.fd with
  | none => simpa [connFds, List.filterMap_cons, hfd] using hperm
  | some fd => simpa [connFds, List.filterMap_cons, hfd] using hperm

theorem connFds_erase_none {t : Table ℕ Connection} {id : ℕ} (h : id ∉ t) :
    connFds (t.erase id) = connFds t := by
  have herase : t.erase id = t := AList.ext (List.kerase_of_notMem_keys h)
  rw [herase]

/-- A connection is changed: its descriptor is what it was, or a new one. -/
theorem settles_setConnection {w : NetWorker} {id : ℕ} {old conn : Connection} {fds : List ℕ}
    (hl : w.connections.lookup id = some old) (hfd : conn.fd.toList = fds ++ old.fd.toList) :
    Settles fds w (w.setConnection id conn) := by
  refine @settles_of _ _ _ [] (List.append_nil _).symm ?_
  have hold := connFds_erase hl
  have hnew : (w.setConnection id conn).openFds = w.epollFd.toList ++ w.wakeFd.toList ++
      (conn.fd.toList ++ connFds (w.connections.erase id)) := by
    rw [← connFds_insert]
    rfl
  rw [hnew, openFds_eq, hfd]
  rw [List.perm_iff_count] at hold ⊢
  intro k
  have h := hold k
  simp only [List.count_append, List.nil_append] at h ⊢
  omega

theorem settles_enter {w : NetWorker} {id : ℕ} {conn : Connection} (hnew : id ∉ w.connections)
    (hfd : conn.fd = none) : Settles [] w (w.setConnection id conn) := by
  refine @settles_of _ _ _ [] (List.append_nil _).symm ?_
  have hopen : (w.setConnection id conn).openFds = w.openFds := by
    show _ ++ connFds (w.connections.insert id conn) = _ ++ connFds w.connections
    rw [connFds_insert, hfd, connFds_erase_none hnew]
    rfl
  rw [hopen]

theorem settles_closeFd (w : NetWorker) (fd : ℕ) : Settles [fd] w (w.closeFd fd) :=
  settles_of rfl (.refl _)

theorem removeConnection_handles {w : NetWorker} {id : ℕ} {conn : Connection}
    (hl : w.connections.lookup id = some conn) (err : NetErrc) :
    (w.removeConnection id err).epollFd = w.epollFd ∧
      (w.removeConnection id err).wakeFd = w.wakeFd ∧
      (w.removeConnection id err).closed = w.closed ++ conn.fd.toList := by
  have hrelease : (w.releaseFd conn.fd).epollFd = w.epollFd ∧
      (w.releaseFd conn.fd).wakeFd = w.wakeFd ∧
      (w.releaseFd conn.fd).closed = w.closed ++ conn.fd.toList := by
    cases conn.fd with
    | none => exact ⟨rfl, rfl, (List.append_nil _).symm⟩
    | some fd => exact ⟨rfl, rfl, rfl⟩
  unfold removeConnection
  rw [hl]
  dsimp only
  split_ifs <;> exact hrelease

theorem settles_removeConnection (w : NetWorker) (id : ℕ) (err : NetErrc) :
    Settles [] w (w.removeConnection id err) := by
  cases hl : w.connections.lookup id with
  | none =>
    have hsame : w.removeConnection id err = w := by simp [removeConnection, hl]
    rw [hsame]
    exact settles_same rfl rfl rfl rfl
  | some conn =>
    obtain ⟨hepoll, hwake, hclosed⟩ := removeConnection_handles hl err
    refine settles_of hclosed ?_
    have hold := connFds_erase hl
    rw [openFds_eq, openFds_eq, hepoll, hwake, removeConnection_connections]
    rw [List.perm_iff_count] at hold ⊢
    intro fd
    have h := hold fd
    simp only [List.count_append, List.nil_append] at h ⊢
    omega

theorem Deeds.settles {S : Set ℕ} {fds : List ℕ} {w w' : NetWorker} (h : Deeds S fds w w') :
    Settles fds w w' := by
  induction h with
  | quiet hq => exact settles_same hq.epollFd hq.wakeFd hq.connections hq.closed
  | alter _ hl _ hfd => exact settles_setConnection hl (by rw [hfd]; rfl)
  | store fd _ hl _ hnone hfd => exact settles_setConnection hl (by rw [hnone, hfd]; rfl)
  | close fd => exact settles_closeFd _ fd
  | data _ _ _ => exact settles_same rfl rfl rfl rfl
  | remove _ _ _ _ => exact settles_removeConnection _ _ _
  | trans _ _ ih ih' => exact ih.trans ih'

theorem Carries.settles {create : ℕ → CreateSys} {w w' : NetWorker} {cmd : Command}
    (h : Carries create w cmd w') :
    Settles ((socketOf create w cmd).toList ++ (closedEarly create w cmd).toList) w w' := by
  cases h with
  | entered _ hnew _ hfd hdeeds => exact (settles_enter hnew hfd).trans hdeeds.settles
  | collided _ _ hsocket =>
    rw [closedEarly, hsocket, ite_self]
    exact settles_removeConnection _ _ _
  | sent _ hdeeds => exact hdeeds.settles
  | missed _ hq => exact settles_same hq.epollFd hq.wakeFd hq.connections hq.closed
  | closed id => exact settles_removeConnection _ _ _

theorem settles_shutdownAll (w : NetWorker) : Settles [] w w.shutdownAll := by
  have hclosed : w.shutdownAll.closed = w.closed ++
      (connFds w.connections ++ w.wakeFd.toList ++ w.epollFd.toList) := by
    show w.closed ++ _ ++ _ ++ _ = _
    rw [List.append_assoc, List.append_assoc, List.append_assoc]
    rfl
  refine settles_of hclosed ?_
  have hopen : w.shutdownAll.openFds = [] := rfl
  rw [hopen, openFds_eq, List.perm_iff_count]
  intro fd
  simp only [List.count_append, List.count_nil]
  omega

/-! ## Runs -/

/-- The descriptors `Start` obtains. -/
def startFds (sys : StartSys) : List ℕ :=
  match sys.epollFd with
  | none => []
  | some epollFd => epollFd :: sys.wakeFd.toList

theorem settles_handles {w : NetWorker} (hepoll : w.epollFd = none) (hwake : w.wakeFd = none)
    (started : Bool) (epollFd wakeFd : Option ℕ) :
    Settles (epollFd.toList ++ wakeFd.toList) w
      { w with started := started, epollFd := epollFd, wakeFd := wakeFd } := by
  refine @settles_of _ _ _ [] (List.append_nil _).symm ?_
  rw [openFds_eq, openFds_eq, hepoll, hwake]
  exact .refl _

theorem settles_start {w : NetWorker} (hnot : w.started = false) (hepoll : w.epollFd = none)
    (hwake : w.wakeFd = none) (sys : StartSys) : Settles (startFds sys) w (w.start sys).1 := by
  have hfail : ∀ e k : Option ℕ, Settles (e.toList ++ k.toList) w
      { { w with started := true, epollFd := e, wakeFd := k }.shutdownAll with
        started := false } := by
    intro e k
    have hdown := (settles_handles hepoll hwake true e k).trans (settles_shutdownAll _)
    rw [List.append_nil] at hdown
    exact hdown
  unfold startFds
  rcases start_cases hnot sys with ⟨he, hw⟩ | ⟨e, he, hk, hw⟩ | ⟨e, k, he, hk, -, hw⟩ |
    ⟨e, k, he, hk, -, hw⟩
  · rw [he, hw]
    exact settles_same hepoll.symm rfl rfl rfl
  · rw [he, hk, hw]
    have hnone := hfail (some e) w.wakeFd
    have hlist : (some e).toList ++ w.wakeFd.toList = [e] := by
      rw [hwake]
      rfl
    rw [hlist] at hnone
    exact hnone
  · rw [he, hk, hw]
    exact hfail (some e) (some k)
  · rw [he, hk, hw]
    exact settles_handles hepoll hwake true (some e) (some k)

namespace Polling

/-- The descriptors the step obtains. -/
def obtains (x : Polling × Step) : List ℕ :=
  match x.2 with
  | .start sys => if x.1.net.started then [] else startFds sys
  | s => (x.1.socketFd s).toList

/-- The descriptors the step calls `close` for. -/
def closes (x : Polling × Step) : List ℕ := closedSince x.1.net (x.1.step x.2).net

/-- The descriptors the step closes although a connection keeps them. -/
def closesEarly (x : Polling × Step) : List ℕ :=
  match x.2 with
  | .execute create => (x.1.taken.head?.bind (closedEarly create x.1.net)).toList
  | _ => []

/-- A call fails on a descriptor that `socket` has returned and the connection has got. -/
def FailsStored (x : Polling × Step) : Prop :=
  match x.2 with
  | .execute create => ∃ cmd ∈ x.1.taken.head?,
      failsStored create cmd = true ∧ (socketOf create x.1.net cmd).isSome
  | _ => False

theorem settles_step {p : Polling} (h : p.Sane) (s : Step) :
    Settles (obtains (p, s) ++ closesEarly (p, s)) p.net (p.step s).net := by
  have hsame : Settles [] p.net p.net := settles_same rfl rfl rfl rfl
  cases s with
  | start sys =>
    have hnil : obtains (p, .start sys) ++ closesEarly (p, .start sys)
        = if p.net.started then [] else startFds sys := List.append_nil _
    rw [hnil, step_start]
    by_cases hs : p.net.started = true
    · rw [if_pos hs, start_started hs]
      exact hsame
    · have hnot : p.net.started = false := by simpa using hs
      rw [if_neg hs]
      exact settles_start hnot (h.idle hnot).epollFd (h.idle hnot).wakeFd sys
  | stop =>
    rw [step_stop]
    unfold NetWorker.stop
    dsimp only
    split_ifs
    · exact hsame
    · have hdown := settles_shutdownAll { p.net with started := false }
      exact (settles_same rfl rfl rfl rfl).trans hdown
  | submit cmd sys =>
    have hs := submit_sameNet cmd sys p.net
    exact settles_same hs.epollFd hs.wakeFd hs.connections hs.closed
  | clearEvents => exact settles_same rfl rfl rfl rfl
  | take => exact settles_same rfl rfl rfl rfl
  | execute create =>
    unfold obtains closesEarly socketFd
    dsimp only
    cases ht : p.taken with
    | nil =>
      rw [step_execute_nil ht]
      exact hsame
    | cons cmd cmds =>
      rw [step_execute_cons ht]
      exact (handleCommand_carries create p.net cmd).settles
  | checkConnectTimeouts nowNs order =>
    exact (deeds_checkConnectTimeouts p.net nowNs order).settles
  | dispatch ev => exact (deeds_dispatch p.net ev h.wellKeyed).settles

theorem closesEarly_eq_nil (x : Polling × Step) : closesEarly x = [] ↔ ¬ FailsStored x := by
  obtain ⟨p, s⟩ := x
  cases s with
  | execute create =>
    unfold closesEarly FailsStored closedEarly
    cases p.taken with
    | nil => simp
    | cons cmd cmds =>
      cases hs : socketOf create p.net cmd <;> simp [hs]
  | _ => exact iff_of_true rfl not_false

/-- After `Stop` nothing is open. -/
theorem openFds_stop {p : Polling} (h : p.Sane) : (p.step .stop).net.openFds = [] := by
  rw [step_stop]
  unfold NetWorker.stop
  dsimp only
  split_ifs with hs
  · have hidle := h.idle hs
    rw [openFds_eq, hidle.epollFd, hidle.wakeFd, hidle.connections]
    rfl
  · rfl

/-- **Each descriptor is closed exactly once, except after a late failure.** From the construction
of a worker to a final `Stop`, whatever the system answers and whatever other threads submit: every
descriptor the worker obtains is closed once, and none that it does not own, exactly when no call
fails on a descriptor a new connection has got already and that the handler closes itself. -/
theorem descriptors_closed_once_iff (steps : List Step) :
    Handles.audit [] (Handles.log obtains closes (visits {} (steps ++ [.stop]))) = some [] ↔
      ∀ x ∈ visits {} steps, ¬ FailsStored x := by
  have hsettles : ∀ x ∈ visits {} (steps ++ [.stop]),
      (obtains x ++ closesEarly x ++ x.1.net.openFds).Perm
        (closes x ++ (x.1.step x.2).net.openFds) := by
    intro x hx
    exact (settles_step (sane_init.visited hx) x.2).2
  have hlast : (run {} (steps ++ [.stop])).net.openFds = [] := by
    rw [run_append]
    exact openFds_stop (sane_init.run steps)
  have hiff := @Handles.audit_visits_iff _ _ _ _ Polling.step (fun p => p.net.openFds) obtains
    closes closesEarly {} (steps ++ [.stop]) hsettles rfl hlast
  rw [hiff]
  constructor
  · intro h x hx
    refine (closesEarly_eq_nil x).mp (h x ?_)
    rw [Mealy.visits_append]
    exact List.mem_append_left _ hx
  · intro h x hx
    rw [Mealy.visits_append] at hx
    rcases List.mem_append.mp hx with hx | hx
    · exact (closesEarly_eq_nil x).mpr (h x hx)
    · rw [List.mem_singleton.mp hx]
      rfl

/-- A datagram socket is connected to an address the host has no route to. -/
def unreachable : List Step :=
  [.start {}, .submit (.createUdp 0 { host := ascii "h", port := 53 }) {}, .take,
    .execute fun _ => { socketFd := some 5, connect := .failed }]

/-- The descriptors are fresh, and 5 is closed twice. -/
theorem descriptors_closed_twice :
    FreshSteps {} unreachable ∧ (run {} unreachable).net.closed = [5, 5] ∧
      Handles.audit [] (Handles.log obtains closes (visits {} (unreachable ++ [.stop]))) =
        none := by
  decide

end Polling

end NetWorker

end TitanBench
