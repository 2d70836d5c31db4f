import TitanBench.NetworkFlush
import TitanBench.NetworkSteps

/-!
# What a command does to what is pending

The handlers once more, with what they leave in the queues of the connections and in the interest
set.

* `Handled` — everything the execution of a command can do; `handleCommand_handled`.
* `Thins`, `Fades` — connections may go, and those that stay are as they were.
* `Polling.Did` — everything a step can do: a command, an event, or connections fade.
-/

namespace TitanBench

namespace NetWorker

/-! ## Removals -/

section Removal

variable {w : NetWorker} {id : ℕ} {conn : Connection}

@[simp] theorem removeConnection_bytesSent (w : NetWorker) (id : ℕ) (err : NetErrc) :
    (w.removeConnection id err).bytesSent = w.bytesSent := by
  unfold removeConnection
  cases w.connections.lookup id with
  | none => rfl
  | some conn =>
    dsimp only
    cases conn.fd <;> split_ifs <;> rfl

/-- A connection takes the interest in its descriptor along. -/
theorem removeConnection_interest (h : w.connections.lookup id = some conn) (err : NetErrc) {f : ℕ}
    (hf : conn.fd ≠ some f) :
    (w.removeConnection id err).interest.lookup f = w.interest.lookup f := by
  unfold removeConnection
  rw [h]
  dsimp only
  cases hfd : conn.fd with
  | none => split_ifs <;> rfl
  | some fd =>
    have hne : f ≠ fd := fun heq => hf (by rw [hfd, heq])
    split_ifs <;> exact AList.lookup_erase_ne hne

theorem removeConnection_absent (h : w.connections.lookup id = none) (err : NetErrc) :
    w.removeConnection id err = w := by
  unfold removeConnection
  rw [h]

end Removal

/-! ## Connections that go -/

/-- Connections may go from `w` to `w'`, those that stay are as they were. -/
structure Thins (w w' : NetWorker) : Prop where
  lookup : ∀ id conn, w'.connections.lookup id = some conn → w.connections.lookup id = some conn
  bytesSent : w'.bytesSent = w.bytesSent

/-- The same, with the interest in the descriptors of those that stay. -/
structure Fades (w w' : NetWorker) : Prop extends Thins w w' where
  consistent : w.Consistent → w'.Consistent
  interest : w.Consistent → ∀ id conn, w'.connections.lookup id = some conn →
    ∀ f, conn.fd = some f → w'.interest.lookup f = w.interest.lookup f

section Fades

variable {w w' : NetWorker}

theorem fades_same (hconn : w'.connections = w.connections) (hroute : w'.fdToConn = w.fdToConn)
    (hint : w'.interest = w.interest) (hsent : w'.bytesSent = w.bytesSent) : Fades w w' := by
  refine ⟨⟨fun id conn hl => ?_, hsent⟩, fun h => h.congr hconn hroute, fun _ _ _ _ f _ => ?_⟩
  · rw [← hconn]
    exact hl
  · rw [hint]

theorem fades_empty (hconn : w'.connections = ∅) (hroute : w'.fdToConn = ∅)
    (hsent : w'.bytesSent = w.bytesSent) : Fades w w' := by
  refine ⟨⟨fun id conn hl => ?_, hsent⟩, fun _ => .empty hconn hroute, fun _ id conn hl => ?_⟩
  · rw [hconn] at hl
    cases hl
  · rw [hconn] at hl
    cases hl

theorem Thins.trans {w'' : NetWorker} (h : Thins w w') (h' : Thins w' w'') : Thins w w'' :=
  ⟨fun id conn hl => h.lookup id conn (h'.lookup id conn hl), h'.bytesSent.trans h.bytesSent⟩

/-- What holds of all connections holds of those that stay. -/
theorem Thins.all {P : ℕ → Connection → Prop} (h : Thins w w') (hw : w.connections.All P) :
    w'.connections.All P :=
  fun id conn hl => hw id conn (h.lookup id conn hl)

theorem thins_modFd (w : NetWorker) (fd : Option ℕ) (mask : EpollMask) :
    Thins w (w.modFd fd mask) := by
  cases fd <;> exact ⟨fun _ _ hl => hl, rfl⟩

theorem Fades.trans {w'' : NetWorker} (h : Fades w w') (h' : Fades w' w'') : Fades w w'' := by
  refine ⟨h.toThins.trans h'.toThins, fun hc => h'.consistent (h.consistent hc),
    fun hc id conn hl f hf => ?_⟩
  rw [h'.interest (h.consistent hc) id conn hl f hf]
  exact h.interest hc id conn (h'.lookup id conn hl) f hf

theorem fades_removeConnection (w : NetWorker) (id : ℕ) (err : NetErrc) :
    Fades w (w.removeConnection id err) := by
  have hkept : ∀ k conn, (w.removeConnection id err).connections.lookup k = some conn →
      k ≠ id ∧ w.connections.lookup k = some conn := by
    intro k conn hl
    have hne : k ≠ id := by
      intro heq
      rw [heq, removeConnection_lookup] at hl
      cases hl
    rw [removeConnection_connections, AList.lookup_erase_ne hne] at hl
    exact ⟨hne, hl⟩
  refine ⟨⟨fun k conn hl => (hkept k conn hl).2, removeConnection_bytesSent w id err⟩,
    fun h => h.removeConnection id err, fun h k conn hl f hf => ?_⟩
  obtain ⟨hne, hold⟩ := hkept k conn hl
  cases hgone : w.connections.lookup id with
  | none => rw [removeConnection_absent hgone]
  | some gone =>
    -- No two connections share a descriptor.
    exact removeConnection_interest hgone err fun heq =>
      hne (h.distinct hold hgone (hf.trans heq.symm))

theorem fades_drainRead (w : NetWorker) (id : ℕ) (recvs : List RecvResult) :
    Fades w (w.drainRead id recvs) := by
  induction recvs generalizing w with
  | nil => exact fades_same rfl rfl rfl rfl
  | cons result recvs ih =>
    cases result with
    | wouldBlock => exact fades_same rfl rfl rfl rfl
    | failed => exact fades_removeConnection w id _
    | data bytes =>
      cases bytes with
      | nil => exact fades_removeConnection w id _
      | cons b bytes =>
        have hreceived : Fades w (w.received id (b :: bytes)) := fades_same rfl rfl rfl rfl
        exact hreceived.trans (ih _)

theorem fades_checkConnectTimeouts (w : NetWorker) (nowNs : ℤ) (order : List ℕ) :
    Fades w (w.checkConnectTimeouts nowNs order) := by
  unfold checkConnectTimeouts
  generalize List.filterMap _ _ = ids
  induction ids generalizing w with
  | nil => exact fades_same rfl rfl rfl rfl
  | cons id ids ih => exact (fades_removeConnection w id .timeout).trans (ih _)

theorem fades_start (w : NetWorker) (sys : StartSys) : Fades w (w.start sys).1 := by
  by_cases hs : w.started = true
  · rw [start_started hs]
    exact fades_same rfl rfl rfl rfl
  · rcases start_cases (by simpa using hs) sys with ⟨-, hw⟩ | ⟨e, -, -, hw⟩ |
      ⟨e, k, -, -, -, hw⟩ | ⟨e, k, -, -, -, hw⟩ <;> rw [hw]
    · exact fades_same rfl rfl rfl rfl
    · exact fades_empty rfl rfl rfl
    · exact fades_empty rfl rfl rfl
    · exact fades_same rfl rfl rfl rfl

theorem fades_stop (w : NetWorker) : Fades w w.stop := by
  unfold NetWorker.stop
  split_ifs
  · exact fades_same rfl rfl rfl rfl
  · exact fades_empty rfl rfl rfl

theorem fades_submit (cmd : Command) (sys : SubmitSys) (w : NetWorker) :
    Fades w (w.submit cmd sys).1 := by
  obtain ⟨cmds, next, hw, -⟩ := submit_enters cmd sys w
  rw [hw]
  exact fades_same rfl rfl rfl rfl

end Fades

/-! ## Commands -/

/-- Everything the execution of a command can do to the queues and the interest set. A connection
that is refused has had a descriptor or not. -/
inductive Handled (create : ℕ → CreateSys) (w : NetWorker) : Command → NetWorker → Prop
  | opened {cmd : Command} {id fd : ℕ} {conn : Connection} {mask : EpollMask} {w' : NetWorker} :
      cmd.opens = some id → id ∉ w.connections → (create id).socketFd = some fd →
      conn.id = id → conn.fd = some fd → conn.pendingSend = [] → conn.Sound →
      (conn.type = .tcp → conn.state = .connecting → mask.epollOut = true) →
      w'.connections = w.connections.insert id conn → w'.interest = w.interest.insert fd mask →
      w'.bytesSent = w.bytesSent → Handled create w cmd w'
  | refused {cmd : Command} {id : ℕ} (fd : Option ℕ) {w' : NetWorker} :
      cmd.opens = some id → id ∉ w.connections → (fd ≠ none → fd = (create id).socketFd) →
      w'.connections = w.connections →
      (∀ f, fd ≠ some f → w'.interest.lookup f = w.interest.lookup f) →
      w'.bytesSent = w.bytesSent → Handled create w cmd w'
  | removed {cmd : Command} {id : ℕ} (err : NetErrc) :
      cmd.opens = some id ∧ id ∈ w.connections ∨ cmd = .close id →
      Handled create w cmd (w.removeConnection id err)
  | sent {id : ℕ} {payload : Bytes} {conn : Connection} :
      w.connections.lookup id = some conn → conn.state ≠ .closed →
      Handled create w (.send id payload)
        ((w.setConnection id
          { conn with pendingSend := conn.pendingSend ++ [{ data := payload }] }).modFd conn.fd
            readWriteMask)
  | dropped {id : ℕ} {payload : Bytes} {w' : NetWorker} :
      (∀ conn, w.connections.lookup id = some conn → conn.state = .closed) →
      w'.connections = w.connections → w'.interest = w.interest → w'.bytesSent = w.bytesSent →
      Handled create w (.send id payload) w'

section Commands

variable {create : ℕ → CreateSys} {w : NetWorker} {cmd : Command} {id : ℕ}

/-- A handler that enters `conn` and gives it up again. -/
theorem handled_undo (hopens : cmd.opens = some id) (hnew : id ∉ w.connections)
    {conn : Connection} (err : NetErrc) (hfd : conn.fd ≠ none → conn.fd = (create id).socketFd)
    {v : NetWorker} (hconn : v.connections = w.connections.insert id conn)
    (hint : ∀ f, conn.fd ≠ some f → v.interest.lookup f = w.interest.lookup f)
    (hsent : v.bytesSent = w.bytesSent) : Handled create w cmd (v.removeConnection id err) := by
  have hl : v.connections.lookup id = some conn := by
    rw [hconn]
    exact AList.lookup_insert w.connections
  refine .refused conn.fd hopens hnew hfd ?_ ?_ ?_
  · rw [removeConnection_connections, hconn]
    exact Table.erase_insert hnew conn
  · intro f hf
    rw [removeConnection_interest hl err hf, hint f hf]
  · rw [removeConnection_bytesSent, hsent]

theorem handled_connectTcp (hopens : cmd.opens = some id) (hnew : id ∉ w.connections) {fd : ℕ}
    (hfd : (create id).socketFd = some fd) {init conn : Connection} (hid : conn.id = id)
    (hconn : conn.fd = some fd) (hpending : conn.pendingSend = []) (htype : conn.type = .tcp)
    (hstate : conn.state = .connecting) (sys : CreateSys) :
    Handled create w cmd ((w.setConnection id init).connectTcp id fd conn sys) := by
  have hsame : conn.fd ≠ none → conn.fd = (create id).socketFd := fun _ => hconn.trans hfd.symm
  have htcp : ∀ state, state ≠ .closed → Connection.Sound { conn with state := state } := by
    intro state hne
    refine ⟨fun ht => ?_, hne⟩
    rw [show conn.type = .tcp from htype] at ht
    cases ht
  unfold connectTcp
  dsimp only
  rw [setConnection_twice]
  by_cases hadd : sys.epollAdd = false
  · rw [if_pos hadd]
    exact handled_undo hopens hnew _ hsame rfl (fun _ _ => rfl) rfl
  · rw [if_neg hadd]
    cases sys.connect with
    | connected =>
      refine @Handled.opened _ _ _ _ _ { conn with state := .connected } readMask _ hopens hnew hfd
        hid hconn hpending (htcp .connected (by decide)) (fun _ h => (by cases h)) ?_ ?_ rfl
      · rw [modFd_connections]
        exact AList.insert_insert ..
      · exact AList.insert_insert ..
    | inProgress =>
      have hsound : conn.Sound := by
        have h := htcp conn.state (by rw [hstate]; decide)
        exact h
      exact .opened hopens hnew hfd hid hconn hpending hsound (fun _ _ => rfl) rfl rfl rfl
    | failed =>
      refine handled_undo hopens hnew _ hsame rfl (fun f hf => ?_) rfl
      have hne : f ≠ fd := fun heq => hf (by rw [hconn, heq])
      exact AList.lookup_insert_ne hne

theorem handled_connectUdp (hopens : cmd.opens = some id) (hnew : id ∉ w.connections) {fd : ℕ}
    (hfd : (create id).socketFd = some fd) {init conn : Connection} (hid : conn.id = id)
    (hconn : conn.fd = some fd) (hpending : conn.pendingSend = [])
    (hstate : conn.state = .connected) (sys : CreateSys) :
    Handled create w cmd ((w.setConnection id init).connectUdp id fd conn sys) := by
  have hsame : conn.fd ≠ none → conn.fd = (create id).socketFd := fun _ => hconn.trans hfd.symm
  unfold connectUdp
  dsimp only
  rw [setConnection_twice]
  by_cases hcon : sys.connect ≠ .connected
  · rw [if_pos hcon]
    exact handled_undo hopens hnew _ hsame rfl (fun _ _ => rfl) rfl
  · rw [if_neg hcon]
    by_cases hadd : sys.epollAdd = false
    · rw [if_pos hadd]
      exact handled_undo hopens hnew _ hsame rfl (fun _ _ => rfl) rfl
    · rw [if_neg hadd]
      have hsound : conn.Sound := ⟨fun _ => hstate, by rw [hstate]; decide⟩
      refine .opened hopens hnew hfd hid hconn hpending hsound (fun _ hc => ?_) rfl rfl rfl
      rw [hstate] at hc
      cases hc

/-- The beginning of the two `Create` handlers. -/
theorem handled_create (hopens : cmd.opens = some id) {conn : Connection} (hnone : conn.fd = none)
    {tail : ℕ → NetWorker} (endpoint : Endpoint)
    (htail : ∀ fd, id ∉ w.connections → (create id).socketFd = some fd →
      Handled create w cmd (tail fd)) :
    Handled create w cmd
      (if id ∈ w.connections then w.removeConnection id .ioFailed
      else if buildSockAddr endpoint (create id).resolved = false then
        (w.setConnection id conn).removeConnection id .resolveFailed
      else
        match (create id).socketFd with
        | none => (w.setConnection id conn).removeConnection id .socketCreateFailed
        | some fd =>
          if (create id).nonBlocking = false then
            ((w.setConnection id conn).closeFd fd).removeConnection id .setNonBlockingFailed
          else tail fd) := by
  have hundo : id ∉ w.connections → ∀ err (v : NetWorker),
      v.connections = w.connections.insert id conn → v.interest = w.interest →
      v.bytesSent = w.bytesSent → Handled create w cmd (v.removeConnection id err) := by
    intro hnew err v hconn hint hsent
    refine handled_undo hopens hnew err (fun h => absurd hnone h) hconn (fun f _ => ?_) hsent
    rw [hint]
  by_cases hmem : id ∈ w.connections
  · rw [if_pos hmem]
    exact .removed _ (.inl ⟨hopens, hmem⟩)
  · rw [if_neg hmem]
    by_cases hres : buildSockAddr endpoint (create id).resolved = false
    · rw [if_pos hres]
      exact hundo hmem _ _ rfl rfl rfl
    · rw [if_neg hres]
      cases hfd : (create id).socketFd with
      | none => exact hundo hmem _ _ rfl rfl rfl
      | some fd =>
        dsimp only
        by_cases hblock : (create id).nonBlocking = false
        · rw [if_pos hblock]
          exact hundo hmem _ _ rfl rfl rfl
        · rw [if_neg hblock]
          exact htail fd hmem hfd

theorem handleSend_handled (w : NetWorker) (id : ℕ) (payload : Bytes) :
    Handled create w (.send id payload) (w.handleSend id payload) := by
  unfold handleSend
  cases hl : w.connections.lookup id with
  | none =>
    refine .dropped (fun conn h => ?_) rfl rfl rfl
    rw [hl] at h
    cases h
  | some conn =>
    dsimp only
    by_cases hclosed : conn.state = .closed
    · rw [if_pos hclosed]
      refine .dropped (fun c h => ?_) rfl rfl rfl
      rw [hl] at h
      cases h
      exact hclosed
    · rw [if_neg hclosed]
      exact .sent hl hclosed

/-- **The inversion of a command.** -/
theorem handleCommand_handled (create : ℕ → CreateSys) (w : NetWorker) (cmd : Command) :
    Handled create w cmd (w.handleCommand create cmd) := by
  cases cmd with
  | createTcp id endpoint timeoutMs =>
    exact handled_create rfl rfl endpoint fun fd hnew hfd =>
      handled_connectTcp rfl hnew hfd rfl rfl rfl rfl rfl _
  | createUdp id endpoint =>
    exact handled_create rfl rfl endpoint fun fd hnew hfd =>
      handled_connectUdp rfl hnew hfd rfl rfl rfl rfl _
  | send id payload => exact handleSend_handled w id payload
  | close id => exact .removed _ (.inr rfl)

end Commands

/-! ## Steps -/

namespace Polling

/-- Everything a step can do to the queues and the interest set. -/
inductive Did (p : Polling) : Step → NetWorker → Prop
  | fades {s : Step} {w' : NetWorker} : p.executing s = none → (∀ ev, s ≠ .dispatch ev) →
      Fades p.net w' → Did p s w'
  | handled {create : ℕ → CreateSys} {cmd : Command} {w' : NetWorker} :
      p.executing (.execute create) = some cmd → Handled create p.net cmd w' →
      Did p (.execute create) w'
  | dispatched {ev : ReadyEvent} {w' : NetWorker} :
      Dispatched ev p.net (p.net.flushTarget ev) w' → Did p (.dispatch ev) w'

theorem step_did {p : Polling} (h : p.net.WellKeyed) (s : Step) : Did p s (p.step s).net := by
  cases s with
  | start sys => exact .fades rfl (fun _ h => by cases h) (fades_start p.net sys)
  | stop => exact .fades rfl (fun _ h => by cases h) (fades_stop p.net)
  | submit cmd sys => exact .fades rfl (fun _ h => by cases h) (fades_submit cmd sys p.net)
  | clearEvents => exact .fades rfl (fun _ h => by cases h) (fades_same rfl rfl rfl rfl)
  | take => exact .fades rfl (fun _ h => by cases h) (fades_same rfl rfl rfl rfl)
  | execute create =>
    cases ht : p.taken with
    | nil =>
      rw [step_execute_nil ht]
      refine .fades ?_ (fun _ h => by cases h) (fades_same rfl rfl rfl rfl)
      simp [executing, ht]
    | cons cmd cmds =>
      rw [step_execute_cons ht]
      refine .handled ?_ (handleCommand_handled create p.net cmd)
      simp [executing, ht]
  | checkConnectTimeouts nowNs order =>
    exact .fades rfl (fun _ h => by cases h) (fades_checkConnectTimeouts p.net nowNs order)
  | dispatch ev => exact .dispatched (dispatch_dispatched h ev)

end Polling

end NetWorker

end TitanBench
