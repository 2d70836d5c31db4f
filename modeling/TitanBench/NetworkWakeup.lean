import TitanBench.NetworkHandled

/-!
# Write wake-ups

The worker writes to a connection only when an event says that it can. A connection with something
to write, or whose connect is in progress, is therefore registered for `EPOLLOUT`.

**The invariant** (`Awake`). Every connection that waits has a descriptor whose mask, as it was last
registered, has the bit. The mask is written when the connection is created, by `Send`, by the
completion of the connect and by a flush, each time to the descriptor of the connection concerned.
No two connections share a descriptor, so the others keep theirs.

Main result: `wakeups_kept`.
-/

namespace TitanBench

/-- Something is to be written, or the connect is in progress. -/
def Connection.Waits (conn : Connection) : Prop :=
  conn.pendingSend ≠ [] ∨ conn.type = .tcp ∧ conn.state = .connecting

/-- A connection without a pending connect is connected. -/
theorem Connection.Sound.connected {conn : Connection} (h : conn.Sound)
    (hsettled : ¬ (conn.type = .tcp ∧ conn.state = .connecting)) : conn.state = .connected := by
  cases htype : conn.type with
  | udp => exact h.udp htype
  | tcp =>
    cases hstate : conn.state with
    | connecting => exact absurd ⟨htype, hstate⟩ hsettled
    | connected => rfl
    | closed => exact absurd hstate h.notClosed

namespace NetWorker

/-- The mask last registered for the descriptor of the connection has `EPOLLOUT`. -/
def Armed (w : NetWorker) (conn : Connection) : Prop :=
  ∃ fd mask, conn.fd = some fd ∧ w.interest.lookup fd = some mask ∧ mask.epollOut = true

/-- Every connection that waits is armed. -/
def Awake (w : NetWorker) : Prop :=
  ∀ id conn, w.connections.lookup id = some conn → conn.Waits → w.Armed conn

section Awake

variable {w w' : NetWorker} {id : ℕ} {conn conn' : Connection}

theorem Armed.congr (h : w.Armed conn)
    (hint : ∀ f, conn.fd = some f → w'.interest.lookup f = w.interest.lookup f) :
    w'.Armed conn := by
  obtain ⟨fd, mask, hfd, hmask, hout⟩ := h
  exact ⟨fd, mask, hfd, (hint fd hfd).trans hmask, hout⟩

theorem Awake.fades (h : w.Awake) (hc : w.Consistent) (hf : Fades w w') : w'.Awake :=
  fun id conn hl hwaits =>
    (h id conn (hf.lookup id conn hl) hwaits).congr fun f hfd => hf.interest hc id conn hl f hfd

/-- A connection is entered, or changed, and its mask is written. No other connection has its
descriptor. -/
theorem Awake.insert (h : w.Awake) {fd : ℕ} {mask : EpollMask} (hfd : conn.fd = some fd)
    (hothers : ∀ k c, w.connections.lookup k = some c → k ≠ id → c.fd ≠ some fd)
    (hmask : conn.Waits → mask.epollOut = true)
    (hconn : w'.connections = w.connections.insert id conn)
    (hint : w'.interest = w.interest.insert fd mask) : w'.Awake := by
  intro k c hl hwaits
  rw [hconn] at hl
  by_cases hk : k = id
  · subst hk
    rw [AList.lookup_insert] at hl
    cases hl
    refine ⟨fd, mask, hfd, ?_, hmask hwaits⟩
    rw [hint]
    exact AList.lookup_insert w.interest
  · rw [AList.lookup_insert_ne hk] at hl
    refine (h k c hl hwaits).congr fun f hf => ?_
    have hne : f ≠ fd := by
      rintro rfl
      exact hothers k c hl hk hf
    rw [hint]
    exact AList.lookup_insert_ne hne

/-- The connection is changed, and the mask of its own descriptor is written. -/
theorem Awake.alter (h : w.Awake) (hc : w.Consistent)
    (hl : w.connections.lookup id = some conn) (conn' : Connection) (hfd : conn'.fd = conn.fd)
    {v : NetWorker} {mask : EpollMask}
    (hconn : v.connections = w.connections.insert id conn') (hint : v.interest = w.interest)
    (hmask : conn'.Waits → mask.epollOut = true) : (v.modFd conn.fd mask).Awake := by
  obtain ⟨fd, hback, -⟩ := (hc.linked id conn hl).back
  rw [hback]
  refine h.insert (hfd.trans hback) (fun k c hl' hk hf => ?_) hmask hconn ?_
  · exact hk (hc.distinct hl' hl (hf.trans hback.symm))
  · show v.interest.insert fd mask = _
    rw [hint]

/-- `FlushWrite` is called with a connection that is connected. -/
theorem Completed.state_eq (h : Completed id w conn w' conn') (hsound : conn.Sound) :
    conn'.state = .connected := by
  cases h with
  | settled hsettled => exact hsound.connected hsettled
  | connected _ _ => rfl

theorem Completed.consistent (h : Completed id w conn w' conn') (hc : w.Consistent)
    (hl : w.connections.lookup id = some conn) : w'.Consistent := by
  cases h with
  | settled _ => exact hc
  | connected _ _ =>
    have hset : (w.setConnection id { conn with state := .connected }).Consistent :=
      hc.alter hl ⟨rfl, rfl, rfl, .inr rfl⟩
    exact hset.congr (modFd_connections _ _ _) (modFd_fdToConn _ _ _)

theorem Completed.awake (h : Completed id w conn w' conn') (ha : w.Awake) (hc : w.Consistent)
    (hl : w.connections.lookup id = some conn) : w'.Awake := by
  cases h with
  | settled _ => exact ha
  | connected _ _ =>
    refine ha.alter hc hl { conn with state := .connected } rfl rfl rfl ?_
    rintro (hpending | ⟨-, hstate⟩)
    · rw [if_neg hpending]
      rfl
    · cases hstate

/-- A flush that went through asks for the next event when something is left. -/
theorem Awake.flushed (h : w.Awake) (hc : w.Consistent) (hl : w.connections.lookup id = some conn)
    (hstate : conn.state = .connected) (st : Flush) :
    ((w.flushed id conn st).modFd conn.fd
      (if st.pending = [] then readMask else readWriteMask)).Awake := by
  refine h.alter hc hl { conn with pendingSend := st.pending } rfl rfl rfl ?_
  rintro (hpending | ⟨-, hconnecting⟩)
  · rw [if_neg hpending]
    rfl
  · rw [show conn.state = .connecting from hconnecting] at hstate
    cases hstate

/-- A flush that failed takes the connection along. -/
theorem Awake.failed (h : w.Awake) (hc : w.Consistent) (hl : w.connections.lookup id = some conn)
    (st : Flush) (err : NetErrc) : ((w.flushed id conn st).removeConnection id err).Awake := by
  intro k c hl' hwaits
  have hne : k ≠ id := by
    rintro rfl
    rw [removeConnection_lookup] at hl'
    cases hl'
  rw [removeConnection_connections, AList.lookup_erase_ne hne] at hl'
  have hold : w.connections.lookup k = some c := (AList.lookup_insert_ne hne).symm.trans hl'
  refine (h k c hold hwaits).congr fun f hf => ?_
  exact removeConnection_interest (flushed_lookup w id conn st) err fun heq =>
    hne (hc.distinct hold hl (hf.trans heq.symm))

theorem Dispatched.awake {ev : ReadyEvent} {target : Option (NetWorker × Connection)}
    (h : Dispatched ev w target w') (ha : w.Awake) (hc : w.Consistent) : w'.Awake := by
  cases h with
  | unknown => exact ha
  | removed _ _ => exact ha.fades hc (fades_removeConnection _ _ _)
  | reads recvs _ _ => exact ha.fades hc (fades_drainRead _ _ _)
  | fails hl _ hdone _ =>
    exact (hdone.awake ha hc hl).failed (hdone.consistent hc hl) (hdone.lookup hl) _ _
  | @flushes id conn conn' v st recvs hl _ hdone _ =>
    have hv := hdone.consistent hc hl
    have hstate := hdone.state_eq (hc.linked id conn hl).sound
    have hset : (v.setConnection id { conn' with pendingSend := st.pending }).Consistent :=
      hv.alter (hdone.lookup hl) ⟨rfl, rfl, rfl, .inl rfl⟩
    exact ((hdone.awake ha hc hl).flushed hv (hdone.lookup hl) hstate st).fades
      (hset.congr (modFd_connections _ _ _) (modFd_fdToConn _ _ _)) (fades_drainRead _ _ _)

/-- A new connection has a descriptor that no other connection has. -/
theorem Handled.awake {create : ℕ → CreateSys} {cmd : Command} (h : Handled create w cmd w')
    (hfresh : FreshSocket create w cmd) (ha : w.Awake) (hc : w.Consistent) : w'.Awake := by
  cases h with
  | @opened _ _ fd _ _ _ hopens _ hsocket _ hfd hempty _ hmask hconn hint _ =>
    refine ha.insert hfd (fun k c hl _ hf => ?_) ?_ hconn hint
    · exact hfresh _ hopens fd hsocket (mem_openFds hl hf)
    · rintro (hpending | ⟨htype, hstate⟩)
      · exact absurd hempty hpending
      · exact hmask htype hstate
  | refused fd hopens _ hsocket hconn hint _ =>
    intro k c hl hwaits
    rw [hconn] at hl
    refine (ha k c hl hwaits).congr fun f hf => hint f fun heq => ?_
    have hreturned := hsocket (by rw [heq]; exact Option.some_ne_none f)
    rw [heq] at hreturned
    exact hfresh _ hopens f hreturned.symm (mem_openFds hl hf)
  | removed err _ => exact ha.fades hc (fades_removeConnection _ _ _)
  | @sent id payload conn hl _ =>
    exact ha.alter hc hl { conn with pendingSend := conn.pendingSend ++ [{ data := payload }] }
      rfl rfl rfl fun _ => rfl
  | dropped _ hconn hint _ =>
    intro k c hl hwaits
    rw [hconn] at hl
    exact (ha k c hl hwaits).congr fun f _ => by rw [hint]

end Awake

/-! ## Runs -/

namespace Polling

/-- What holds between two commands or events. -/
structure Waking (p : Polling) : Prop where
  sane : p.Sane
  consistent : p.net.Consistent
  awake : p.net.Awake

theorem waking_init : Waking {} :=
  ⟨sane_init, .empty rfl rfl, fun id conn hl => (by cases hl)⟩

theorem Waking.step {p : Polling} (h : p.Waking) {s : Step} (hfresh : p.Fresh s) :
    (p.step s).Waking := by
  refine ⟨h.sane.step s, consistent_step h.consistent hfresh, ?_⟩
  have hdid := step_did h.sane.wellKeyed s
  generalize (p.step s).net = w' at hdid
  cases hdid with
  | fades _ _ hfades => exact h.awake.fades h.consistent hfades
  | @handled create cmd _ hexec hcmd =>
    have hhead : cmd ∈ p.taken.head? := hexec
    exact hcmd.awake (hfresh cmd hhead) h.awake h.consistent
  | dispatched hev => exact hev.awake h.awake h.consistent

theorem waking_run {steps : List Step} (hfresh : FreshSteps {} steps) :
    (Polling.run {} steps).Waking :=
  @Mealy.run_invariant _ _ Polling.step Waking (fun x => x.1.Fresh x.2)
    (fun _ _ hfresh h => h.step hfresh) {} waking_init steps hfresh

/-- An event makes `FlushWrite` write to connected connections only. -/
theorem flushTarget_connected {p : Polling} (h : p.Waking) {ev : ReadyEvent} {w : NetWorker}
    {conn : Connection} (htarget : p.net.flushTarget ev = some (w, conn)) :
    conn.state = .connected := by
  have hdispatched := dispatch_dispatched h.sane.wellKeyed ev
  rw [htarget] at hdispatched
  generalize p.net.dispatch ev = w' at hdispatched
  cases hdispatched with
  | fails hl _ hdone _ => exact hdone.state_eq (h.consistent.linked _ _ hl).sound
  | flushes recvs hl _ hdone _ => exact hdone.state_eq (h.consistent.linked _ _ hl).sound

end Polling

/-- **No write wake-up is lost.** In every run in which `socket` returns only descriptors that are
not open, and whatever else the system answers: between any two commands or events, every connection
with something to write and every tcp connection that is still connecting has `EPOLLOUT` in the mask
last registered for its descriptor, and `send` is called only for a connection that is connected. -/
theorem wakeups_kept (steps : List Step) (hfresh : Polling.FreshSteps {} steps) :
    (∀ before after, steps = before ++ after → (Polling.run {} before).net.Awake) ∧
    ∀ x ∈ Polling.visits {} steps, ∀ ev w conn, x.2 = .dispatch ev →
      x.1.net.flushTarget ev = some (w, conn) → conn.state = .connected := by
  have hbefore : ∀ before after, steps = before ++ after → (Polling.run {} before).Waking := by
    rintro before after rfl
    exact Polling.waking_run (Polling.freshSteps_append.mp hfresh).1
  refine ⟨fun before after hsteps => (hbefore before after hsteps).awake, ?_⟩
  intro x hx ev w conn _ htarget
  obtain ⟨before, after, hsteps, hstate⟩ := Mealy.mem_visits hx
  have hwaking := hbefore before (x.2 :: after) hsteps
  rw [hstate] at htarget
  exact Polling.flushTarget_connected hwaking htarget

/-- A connect in progress with something to send, and `send` takes two of the three bytes. -/
def partialSteps : List Step :=
  [.start {}, .submit (.createTcp 0 { host := ascii "h", port := 80 } 3000) {},
    .submit (.send 1 (ascii "abc")) {}, .take,
    .execute fun _ => { socketFd := some 5, connect := .inProgress }, .execute fun _ => {},
    .dispatch { fd := 5, mask := { epollOut := true }, sends := [.accepted 2, .wouldBlock] }]

theorem wakeups_kept_partial : (Polling.run {} partialSteps).net.Awake :=
  (wakeups_kept partialSteps (by decide)).1 partialSteps [] (List.append_nil _).symm

end NetWorker

end TitanBench
