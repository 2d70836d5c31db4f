import TitanBench.EngineDeadEnd
import TitanBench.EngineSessions

/-!
# The sessions and the connections stay in step

A worker keeps a session for each connection it asked its `NetWorker` for. The two components
talk through queued commands and batches of events only, and a connection is gone some time before
the worker handles the event that says so.

* `InStep` — what ties the sessions to the connections, the queue and the events still to be
  handled.
* `Churn.inStep`, `Executes.inStep` — what the `NetWorker` does in a poll keeps it.
* `Move.inStep` — every step of the worker keeps it, or is about to stop the run.
* `sessions_in_step` — the main result.
-/

namespace TitanBench

open Threads

/-- The id of the connection a command is about. -/
def Command.connId : Command → ℕ
  | .createTcp id _ _ | .createUdp id _ | .send id _ | .close id => id

theorem Command.connId_opens {cmd : Command} {id : ℕ} (h : cmd.opens = some id) :
    cmd.connId = id := by
  cases cmd <;> cases h <;> rfl

namespace NetWorker

/-- There is an error event of connection `id`. -/
def Fails (events : List RecvEvent) (id : ℕ) : Prop :=
  ∃ ev ∈ events, ev.isError = true ∧ ev.connId = id

/-- Connection `id` is still to be set up. -/
def Asked (queue : List Command) (id : ℕ) : Prop := ∃ cmd ∈ queue, cmd.opens = some id

theorem fails_concat {events : List RecvEvent} {ev : RecvEvent} {id : ℕ} :
    Fails (events ++ [ev]) id ↔ Fails events id ∨ (ev.isError = true ∧ ev.connId = id) := by
  simp [Fails, or_and_right, exists_or]

theorem fails_cons {events : List RecvEvent} {ev : RecvEvent} {id : ℕ} :
    Fails (ev :: events) id ↔ (ev.isError = true ∧ ev.connId = id) ∨ Fails events id := by
  simp [Fails]

theorem fails_failure {events : List RecvEvent} {id k : ℕ} {err : NetErrc} :
    Fails (events ++ [failure id err]) k ↔ Fails events k ∨ id = k := by
  simp [fails_concat, failure]

theorem asked_cons {queue : List Command} {cmd : Command} {id : ℕ} :
    Asked (cmd :: queue) id ↔ cmd.opens = some id ∨ Asked queue id := by
  simp [Asked]

theorem asked_concat {queue : List Command} {cmd : Command} {id : ℕ} :
    Asked (queue ++ [cmd]) id ↔ Asked queue id ∨ cmd.opens = some id := by
  simp [Asked, or_and_right, exists_or]

/-- The connections `mine` are those that are set up or still to be set up, and those whose error
event is still among `events`. -/
structure InStep (mine : ℕ → Prop) (events : List RecvEvent) (queue : List Command)
    (net : NetWorker) : Prop where
  wellKeyed : net.WellKeyed
  live : ∀ id, id ∈ net.connections ∨ Asked queue id → mine id
  known : ∀ id, mine id → id ∈ net.connections ∨ Asked queue id ∨ Fails events id
  gone : ∀ id, Fails events id → id ∉ net.connections ∧ ¬ Asked queue id
  once : ∀ id, id ∈ net.connections → ¬ Asked queue id
  ordered : queue.Pairwise fun a b => b.opens ≠ some a.connId
  noClose : ∀ cmd ∈ queue, ∀ id, cmd ≠ .close id
  below : ∀ id, mine id ∨ Fails events id → id < net.nextConnId
  queued : ∀ cmd ∈ queue, cmd.connId < net.nextConnId

namespace InStep

variable {mine : ℕ → Prop} {events events' : List RecvEvent} {queue : List Command}
  {net net' : NetWorker} {cmd : Command} {id : ℕ}

theorem sessions {mine' : ℕ → Prop} (h : InStep mine events queue net)
    (hmine : ∀ id, mine' id ↔ mine id) : InStep mine' events queue net := by
  rw [show mine' = mine from funext fun id => propext (hmine id)]
  exact h

/-- The same connections, and no other error events. -/
theorem congr (h : InStep mine events queue net)
    (hkeyed : net'.WellKeyed) (hconn : ∀ id, id ∈ net'.connections ↔ id ∈ net.connections)
    (hnext : net'.nextConnId = net.nextConnId)
    (hevents : ∀ id, Fails events' id ↔ Fails events id) : InStep mine events' queue net' := by
  refine ⟨hkeyed, fun id hid => ?_, fun id hid => ?_, fun id hid => ?_, fun id hid => ?_,
    h.ordered, h.noClose, fun id hid => ?_, fun cmd hcmd => ?_⟩
  · rw [hconn] at hid
    exact h.live id hid
  · rw [hconn, hevents]
    exact h.known id hid
  · rw [hevents] at hid
    rw [hconn]
    exact h.gone id hid
  · rw [hconn] at hid
    exact h.once id hid
  · rw [hevents] at hid
    rw [hnext]
    exact h.below id hid
  · rw [hnext]
    exact h.queued cmd hcmd

theorem frame (h : InStep mine net.recvEvents queue net) (hs : SameTables net net') :
    InStep mine net'.recvEvents queue net' := by
  refine h.congr ?_ ?_ hs.nextConnId ?_
  · unfold WellKeyed
    rw [hs.connections]
    exact h.wellKeyed
  · intro id
    rw [hs.connections]
  · intro id
    rw [hs.recvEvents]

/-- A connection that was set up is gone, and its error event is there. -/
theorem removed (h : InStep mine events queue net) (hmem : id ∈ net.connections)
    (hconn : net'.connections = net.connections.erase id)
    (hnext : net'.nextConnId = net.nextConnId)
    (hevents : ∀ k, Fails events' k ↔ Fails events k ∨ id = k) :
    InStep mine events' queue net' := by
  have hleft : ∀ k, k ∈ net'.connections ↔ k ≠ id ∧ k ∈ net.connections := by
    intro k
    rw [hconn]
    exact AList.mem_erase
  refine ⟨?_, fun k hk => ?_, fun k hk => ?_, fun k hk => ?_, fun k hk => ?_, h.ordered, h.noClose,
    fun k hk => ?_, fun cmd hcmd => ?_⟩
  · unfold WellKeyed
    rw [hconn]
    exact h.wellKeyed.erase id
  · exact h.live k (hk.imp_left fun hk => ((hleft k).mp hk).2)
  · rw [hevents]
    by_cases hkid : id = k
    · exact .inr (.inr (.inr hkid))
    · rcases h.known k hk with hin | hasked | hfails
      · exact .inl ((hleft k).mpr ⟨fun heq => hkid heq.symm, hin⟩)
      · exact .inr (.inl hasked)
      · exact .inr (.inr (.inl hfails))
  · rcases (hevents k).mp hk with hfails | rfl
    · have hold := h.gone k hfails
      exact ⟨fun hin => hold.1 ((hleft k).mp hin).2, hold.2⟩
    · exact ⟨fun hin => ((hleft id).mp hin).1 rfl, h.once id hmem⟩
  · exact h.once k ((hleft k).mp hk).2
  · rw [hnext]
    rcases hk with hk | hk
    · exact h.below k (.inl hk)
    · rcases (hevents k).mp hk with hfails | rfl
      · exact h.below k (.inr hfails)
      · exact h.below id (.inl (h.live id (.inl hmem)))
  · rw [hnext]
    exact h.queued cmd hcmd

end InStep

/-! ## What a poll keeps -/

section Poll

variable {mine : ℕ → Prop} {queue : List Command} {w w' : NetWorker}

theorem Churn.inStep (hc : Churn w w') (h : InStep mine w.recvEvents queue w) :
    InStep mine w'.recvEvents queue w' := by
  induction hc with
  | frame hs => exact h.frame hs
  | @alter w id conn conn' hl hf =>
    refine h.congr ?_ (fun k => ?_) rfl (fun _ => Iff.rfl)
    · exact Table.All.insert h.wellKeyed (hf.id.trans (h.wellKeyed id conn hl))
    · have hmem := mem_of_lookup hl
      show k ∈ AList.insert id conn' w.connections ↔ k ∈ w.connections
      rw [AList.mem_insert]
      exact ⟨fun hk => hk.elim (fun heq => heq ▸ hmem) fun hk => hk, .inr⟩
  | @data w id bytes =>
    refine h.congr h.wellKeyed (fun _ => Iff.rfl) rfl fun k => ?_
    show Fails (w.recvEvents ++ [{ connId := id, data := bytes }]) k ↔ _
    simp [fails_concat]
  | @remove w id conn err hl herr =>
    refine h.removed (mem_of_lookup hl) (removeConnection_connections w id err)
      (sameQueue_removeConnection w id err).nextConnId fun k => ?_
    rw [removeConnection_failure hl (h.wellKeyed id conn hl) herr, fails_failure]
  | trans _ _ ih ih' => exact ih' (ih h)

/-- The front command leaves the queue without opening a connection. -/
theorem InStep.drop {events : List RecvEvent} {cmd : Command} {net : NetWorker}
    (h : InStep mine events (cmd :: queue) net) (hopens : cmd.opens = none) :
    InStep mine events queue net := by
  have hsame : ∀ id, Asked (cmd :: queue) id ↔ Asked queue id := by
    intro id
    rw [asked_cons, hopens]
    simp
  refine ⟨h.wellKeyed, fun id hid => ?_, fun id hid => ?_, fun id hid => ?_, fun id hid => ?_,
    h.ordered.tail, fun c hc => h.noClose c (List.mem_cons_of_mem _ hc), h.below,
    fun c hc => h.queued c (List.mem_cons_of_mem _ hc)⟩
  · rw [← hsame] at hid
    exact h.live id hid
  · rw [← hsame]
    exact h.known id hid
  · rw [← hsame]
    exact h.gone id hid
  · rw [← hsame]
    exact h.once id hid

/-- No other command of the queue asks for the connection of the front one. -/
theorem InStep.not_asked {events : List RecvEvent} {cmd : Command} {net : NetWorker} {id : ℕ}
    (h : InStep mine events (cmd :: queue) net) (hid : cmd.connId = id) : ¬ Asked queue id := by
  rintro ⟨c, hc, hopens⟩
  have hfirst := (List.pairwise_cons.mp h.ordered).1 c hc
  rw [hid] at hfirst
  exact hfirst hopens

/-- The front command's connection is set up, or it is gone at once with its error event. -/
theorem InStep.opened {events : List RecvEvent} {cmd : Command} {id : ℕ}
    (h : InStep mine events (cmd :: queue) w) (hopens : cmd.opens = some id)
    {events' : List RecvEvent} (hkeyed : w'.WellKeyed) (hnext : w'.nextConnId = w.nextConnId)
    (hcases : ((∀ k, k ∈ w'.connections ↔ k = id ∨ k ∈ w.connections) ∧ events' = events) ∨
      (w'.connections = w.connections ∧ ∀ k, Fails events' k ↔ Fails events k ∨ id = k)) :
    InStep mine events' queue w' := by
  have hasked : ∀ k, Asked (cmd :: queue) k ↔ k = id ∨ Asked queue k := by
    intro k
    rw [asked_cons, hopens, Option.some.injEq, eq_comm]
  have hnot := h.not_asked (Command.connId_opens hopens)
  have hmine : mine id := h.live id (.inr ((hasked id).mpr (.inl rfl)))
  have hnew : id ∉ w.connections := fun hin => h.once id hin ((hasked id).mpr (.inl rfl))
  have hqueue : ∀ c ∈ queue, c ∈ cmd :: queue := fun c hc => List.mem_cons_of_mem _ hc
  rcases hcases with ⟨hconn, rfl⟩ | ⟨hconn, hevents⟩
  · refine ⟨hkeyed, fun k hk => ?_, fun k hk => ?_, fun k hk => ?_, fun k hk => ?_,
      h.ordered.tail, fun c hc => h.noClose c (hqueue c hc), fun k hk => hnext ▸ h.below k hk,
      fun c hc => hnext ▸ h.queued c (hqueue c hc)⟩
    · rw [hconn] at hk
      rcases hk with (rfl | hin) | hin
      · exact hmine
      · exact h.live k (.inl hin)
      · exact h.live k (.inr ((hasked k).mpr (.inr hin)))
    · rw [hconn]
      rcases h.known k hk with hin | hin | hin
      · exact .inl (.inr hin)
      · rcases (hasked k).mp hin with rfl | hin
        · exact .inl (.inl rfl)
        · exact .inr (.inl hin)
      · exact .inr (.inr hin)
    · obtain ⟨hout, hnone⟩ := h.gone k hk
      rw [hconn]
      refine ⟨fun hin => ?_, fun hin => hnone ((hasked k).mpr (.inr hin))⟩
      rcases hin with rfl | hin
      · exact hnone ((hasked k).mpr (.inl rfl))
      · exact hout hin
    · rcases (hconn k).mp hk with rfl | hin
      · exact hnot
      · exact fun hq => h.once k hin ((hasked k).mpr (.inr hq))
  · refine ⟨hkeyed, fun k hk => ?_, fun k hk => ?_, fun k hk => ?_, fun k hk => ?_,
      h.ordered.tail, fun c hc => h.noClose c (hqueue c hc), fun k hk => ?_,
      fun c hc => hnext ▸ h.queued c (hqueue c hc)⟩
    · rw [hconn] at hk
      exact h.live k (hk.imp_right fun hq => (hasked k).mpr (.inr hq))
    · rw [hconn, hevents]
      rcases h.known k hk with hin | hin | hin
      · exact .inl hin
      · rcases (hasked k).mp hin with rfl | hin
        · exact .inr (.inr (.inr rfl))
        · exact .inr (.inl hin)
      · exact .inr (.inr (.inl hin))
    · rw [hconn]
      rcases (hevents k).mp hk with hf | rfl
      · have hold := h.gone k hf
        exact ⟨hold.1, fun hq => hold.2 ((hasked k).mpr (.inr hq))⟩
      · exact ⟨hnew, hnot⟩
    · rw [hconn] at hk
      exact fun hq => h.once k hk ((hasked k).mpr (.inr hq))
    · rw [hnext]
      rcases hk with hk | hk
      · exact h.below k (.inl hk)
      · rcases (hevents k).mp hk with hf | rfl
        · exact h.below k (.inr hf)
        · exact h.below id (.inl hmine)

theorem Executes.inStep {create : ℕ → CreateSys} {cmd : Command} (he : Executes create w cmd w')
    (h : InStep mine w.recvEvents (cmd :: queue) w) : InStep mine w'.recvEvents queue w' := by
  cases he with
  | @opened _ id fd conn mask _ hopens hnew hfd hid hconn hsound hchurn =>
    refine hchurn.inStep (h.opened hopens ?_ rfl (.inl ⟨fun k => ?_, rfl⟩))
    · exact Table.All.insert h.wellKeyed hid
    · exact AList.mem_insert _
  | @refused _ id err fd _ hopens hnew herr hsame hs =>
    have hrelease := sameBooks_releaseFd w fd
    have hconn : w'.connections = w.connections := hs.connections.trans hrelease.connections
    have hnext : w'.nextConnId = w.nextConnId :=
      hs.nextConnId.trans (sameQueue_releaseFd w fd).nextConnId
    have hevents : w'.recvEvents = w.recvEvents ++ [failure id err] := by
      rw [hs.recvEvents]
      cases fd <;> rfl
    refine h.opened hopens ?_ hnext (.inr ⟨hconn, fun k => ?_⟩)
    · unfold WellKeyed
      rw [hconn]
      exact h.wellKeyed
    · rw [hevents, fails_failure]
  | collided hopens hl =>
    exact absurd (asked_cons.mpr (.inl hopens)) (h.once _ (mem_of_lookup hl))
  | sent hmem hchurn => exact hchurn.inStep (h.drop rfl)
  | @missed id payload _ hout hs =>
    -- The connection was there when the payload was submitted, so its error event is.
    have hnot : ¬ Asked queue id := h.not_asked rfl
    have hlt : id < w.nextConnId := h.queued _ List.mem_cons_self
    have hdrop := h.drop rfl
    have hevents : ∀ k, Fails w'.recvEvents k ↔ Fails w.recvEvents k ∨ id = k := by
      intro k
      rw [hs.recvEvents]
      exact fails_failure
    have hconn : w'.connections = w.connections := hs.connections
    have hnext : w'.nextConnId = w.nextConnId := hs.nextConnId
    refine ⟨?_, fun k hk => ?_, fun k hk => ?_, fun k hk => ?_, fun k hk => ?_, hdrop.ordered,
      hdrop.noClose, fun k hk => ?_, fun c hc => hnext ▸ hdrop.queued c hc⟩
    · unfold WellKeyed
      rw [hconn]
      exact h.wellKeyed
    · rw [hconn] at hk
      exact hdrop.live k hk
    · rw [hconn, hevents]
      exact (hdrop.known k hk).imp_right (Or.imp_right .inl)
    · rw [hconn]
      rcases (hevents k).mp hk with hf | rfl
      · exact hdrop.gone k hf
      · exact ⟨hout, hnot⟩
    · rw [hconn] at hk
      exact hdrop.once k hk
    · rw [hnext]
      rcases hk with hk | hk
      · exact h.below k (.inl hk)
      · rcases (hevents k).mp hk with hf | rfl
        · exact h.below k (.inr hf)
        · exact hlt
  | closed id => exact absurd rfl (h.noClose _ List.mem_cons_self id)

theorem inStep_processCommands (create : ℕ → CreateSys)
    (h : InStep mine w.recvEvents w.commands w) :
    InStep mine (w.processCommands create).recvEvents (w.processCommands create).commands
      (w.processCommands create) := by
  have hfold : ∀ (cmds : List Command) (v : NetWorker), v.commands = [] →
      InStep mine v.recvEvents cmds v →
      (cmds.foldl (handleCommand create) v).commands = [] ∧
        InStep mine (cmds.foldl (handleCommand create) v).recvEvents []
          (cmds.foldl (handleCommand create) v) := by
    intro cmds
    induction cmds with
    | nil => exact fun v hv hs => ⟨hv, hs⟩
    | cons cmd cmds ih =>
      intro v hv hs
      have he := handleCommand_executes create v cmd
      exact ih _ (he.sameQueue.commands.trans hv) (he.inStep hs)
  have hstart : InStep mine w.recvEvents w.commands { w with commands := [] } :=
    h.congr h.wellKeyed (fun _ => Iff.rfl) rfl (fun _ => Iff.rfl)
  obtain ⟨hempty, hin⟩ := hfold w.commands { w with commands := [] } rfl hstart
  have hcmds : (w.processCommands create).commands = [] := hempty
  rw [hcmds]
  exact hin

theorem Churn.inStep_commands (hc : Churn w w') (h : InStep mine w.recvEvents w.commands w) :
    InStep mine w'.recvEvents w'.commands w' := by
  rw [hc.sameQueue.commands]
  exact hc.inStep h

theorem inStep_handleReady (h : InStep mine w.recvEvents w.commands w) (ev : ReadyEvent) :
    InStep mine (w.handleReady ev).recvEvents (w.handleReady ev).commands (w.handleReady ev) := by
  unfold handleReady
  split
  · exact inStep_processCommands _ h
  · exact (churn_dispatch w ev).inStep_commands h

theorem inStep_pollOnce (sys : PollSys) (h : InStep mine w.recvEvents w.commands w) :
    InStep mine (w.pollOnce sys).1.recvEvents (w.pollOnce sys).1.commands (w.pollOnce sys).1 := by
  have hevents : ∀ (events : List ReadyEvent) (v : NetWorker),
      InStep mine v.recvEvents v.commands v →
      InStep mine (events.foldl handleReady v).recvEvents (events.foldl handleReady v).commands
        (events.foldl handleReady v) := by
    intro events
    induction events with
    | nil => exact fun _ hv => hv
    | cons ev events ih => exact fun v hv => ih _ (inStep_handleReady hv ev)
  unfold pollOnce
  split
  · exact h
  · have hfirst := (churn_checkConnectTimeouts _ sys.beforeNs sys.beforeOrder).inStep_commands
      (inStep_processCommands sys.create h)
    cases sys.wait with
    | interrupted => exact hfirst
    | failed => exact hfirst
    | ready events =>
      exact (churn_checkConnectTimeouts _ _ _).inStep_commands (hevents events _ hfirst)

end Poll

/-! ## What a submission keeps -/

section Submit

variable {mine mine' : ℕ → Prop} {events events' : List RecvEvent} {queue : List Command}
  {w w' : NetWorker} {cmd : Command} {id : ℕ}

/-- The connection of the next id is asked for. -/
theorem InStep.asked (h : InStep mine events queue w) (hopens : cmd.opens = some w.nextConnId)
    (hconn : w'.connections = w.connections) (hnext : w'.nextConnId = w.nextConnId + 1)
    (hmine : ∀ k, mine' k ↔ k = w.nextConnId ∨ mine k) :
    InStep mine' events (queue ++ [cmd]) w' := by
  have hid := Command.connId_opens hopens
  have hasked : ∀ k, Asked (queue ++ [cmd]) k ↔ Asked queue k ∨ k = w.nextConnId := by
    intro k
    rw [asked_concat, hopens, Option.some.injEq, @eq_comm _ w.nextConnId]
  have hold : ∀ k, k ∈ w.connections → k < w.nextConnId :=
    fun k hk => h.below k (.inl (h.live k (.inl hk)))
  refine ⟨?_, fun k hk => ?_, fun k hk => ?_, fun k hk => ?_, fun k hk => ?_, ?_, ?_, ?_, ?_⟩
  · unfold WellKeyed
    rw [hconn]
    exact h.wellKeyed
  · rw [hconn, hasked] at hk
    rw [hmine]
    rcases hk with hin | hin | rfl
    · exact .inr (h.live k (.inl hin))
    · exact .inr (h.live k (.inr hin))
    · exact .inl rfl
  · rw [hconn, hasked]
    rcases (hmine k).mp hk with rfl | hk
    · exact .inr (.inl (.inr rfl))
    · exact (h.known k hk).imp_right (Or.imp_left .inl)
  · rw [hconn, hasked]
    have hlt := h.below k (.inr hk)
    obtain ⟨hout, hnone⟩ := h.gone k hk
    exact ⟨hout, fun hin => hin.elim hnone fun heq => hlt.ne heq⟩
  · rw [hconn] at hk
    rw [hasked]
    exact fun hin => hin.elim (h.once k hk) fun heq => (hold k hk).ne heq
  · refine List.pairwise_append.mpr ⟨h.ordered, List.pairwise_singleton _ _, fun a ha b hb => ?_⟩
    rw [List.mem_singleton.mp hb, hopens]
    intro heq
    exact (h.queued a ha).ne (Option.some.inj heq).symm
  · intro c hc k heq
    rcases List.mem_append.mp hc with hc | hc
    · exact h.noClose c hc k heq
    · rw [List.mem_singleton.mp hc] at heq
      rw [heq] at hopens
      cases hopens
  · intro k hk
    rw [hnext]
    rcases hk with hk | hk
    · rcases (hmine k).mp hk with rfl | hk
      · exact Nat.lt_succ_self _
      · exact (h.below k (.inl hk)).trans (Nat.lt_succ_self _)
    · exact (h.below k (.inr hk)).trans (Nat.lt_succ_self _)
  · intro c hc
    rw [hnext]
    rcases List.mem_append.mp hc with hc | hc
    · exact (h.queued c hc).trans (Nat.lt_succ_self _)
    · rw [List.mem_singleton.mp hc, hid]
      exact Nat.lt_succ_self _

theorem start_kept {sys : StartSys} (hok : (w.start sys).2 = .ok) :
    (w.start sys).1.connections = w.connections ∧ (w.start sys).1.commands = w.commands := by
  unfold start at hok ⊢
  split at hok
  · cases hok
  · cases he : sys.epollFd with
    | none => simp [he] at hok
    | some epollFd =>
      cases hw : sys.wakeFd with
      | none => simp [he, hw] at hok
      | some wakeFd =>
        cases ha : sys.epollAdd with
        | false => simp [he, hw, ha] at hok
        | true => simp_all

theorem InStep.start {sys : StartSys} (h : InStep mine events w.commands w)
    (hok : (w.start sys).2 = .ok) :
    InStep mine events (w.start sys).1.commands (w.start sys).1 := by
  obtain ⟨hconn, hcmds⟩ := start_kept hok
  rw [hcmds]
  refine h.congr ?_ (fun id => ?_) (w.start_nextConnId sys) (fun _ => Iff.rfl)
  · unfold WellKeyed
    rw [hconn]
    exact h.wellKeyed
  · rw [hconn]

/-- A payload is queued for a connection of `mine`. -/
theorem InStep.sending {payload : Bytes} (h : InStep mine events w.commands w) (hid : mine id)
    (hs : Sending w id payload w') : InStep mine events w'.commands w' := by
  cases hs with
  | denied => exact h
  | queued =>
    have hasked : ∀ k, Asked (w.commands ++ [.send id payload]) k ↔ Asked w.commands k := by
      intro k
      rw [asked_concat]
      exact or_iff_left fun heq => nomatch heq
    refine ⟨h.wellKeyed, fun k hk => ?_, fun k hk => ?_, fun k hk => ?_, fun k hk => ?_, ?_, ?_,
      h.below, ?_⟩
    · rw [hasked] at hk
      exact h.live k hk
    · rw [hasked]
      exact h.known k hk
    · rw [hasked]
      exact h.gone k hk
    · rw [hasked]
      exact h.once k hk
    · refine List.pairwise_append.mpr
        ⟨h.ordered, List.pairwise_singleton _ _, fun a _ b hb => ?_⟩
      rw [List.mem_singleton.mp hb]
      exact fun heq => nomatch heq
    · intro c hc k
      rcases List.mem_append.mp hc with hc | hc
      · exact h.noClose c hc k
      · rw [List.mem_singleton.mp hc]
        exact fun heq => nomatch heq
    · intro c hc
      rcases List.mem_append.mp hc with hc | hc
      · exact h.queued c hc
      · rw [List.mem_singleton.mp hc]
        exact h.below id (.inl hid)

/-- A session is taken out of the map when the error event of its connection is handled. -/
theorem InStep.handled {ev : RecvEvent} (h : InStep mine (ev :: events) queue w)
    (hmine : ∀ k, mine' k ↔ mine k ∧ ¬ (ev.isError = true ∧ k = ev.connId)) :
    InStep mine' events queue w := by
  have hless : ∀ {k}, Fails events k → Fails (ev :: events) k :=
    fun hk => fails_cons.mpr (.inr hk)
  refine ⟨h.wellKeyed, fun k hk => ?_, fun k hk => ?_, fun k hk => h.gone k (hless hk), h.once,
    h.ordered, h.noClose, fun k hk => ?_, h.queued⟩
  · refine (hmine k).mpr ⟨h.live k hk, ?_⟩
    rintro ⟨herr, rfl⟩
    have hgone := h.gone _ (fails_cons.mpr (.inl ⟨herr, rfl⟩))
    exact hk.elim hgone.1 hgone.2
  · obtain ⟨hk, hne⟩ := (hmine k).mp hk
    refine (h.known k hk).imp_right (Or.imp_right fun hf => ?_)
    rcases fails_cons.mp hf with ⟨herr, heq⟩ | hf
    · exact absurd ⟨herr, heq.symm⟩ hne
    · exact hf
  · exact h.below k (hk.imp (fun hk => ((hmine k).mp hk).1) hless)

end Submit

end NetWorker

/-! ## The worker -/

/-- The events the worker has still to handle. -/
def EventCtl.events : EventCtl → List RecvEvent
  | .handling events | .retrying _ events | .reconnecting _ events => events
  | _ => []

namespace EventWorker

/-- The sessions and the connections of the worker are in step. -/
def InStep (w : EventWorker) : Prop :=
  w.net.InStep (· ∈ w.sessions) w.ctl.events w.net.commands

section Step

variable {cfg : Config} {n : ℕ} {i : Fin n} {env : Env} {sh : Shared n} {w w' : EventWorker}
  {r : Shared n × List Op × EventWorker} {share : ℕ}

/-- The worker goes on to another place, with the same events to handle. -/
theorem InStep.move (h : w.InStep) {ctl : EventCtl} (hevents : ctl.events = w.ctl.events) :
    (w.goto ctl).InStep := by
  show w.net.InStep (· ∈ w.sessions) ctl.events w.net.commands
  rw [hevents]
  exact h

theorem Opens.events {ctl next : EventCtl} (h : Opens ctl next) : next.events = ctl.events := by
  cases h <;> rfl

theorem mem_sessions {id : ℕ} {s : Session} (hl : w.sessions.lookup id = some s) :
    id ∈ w.sessions :=
  AList.lookup_isSome.mp (by rw [hl]; rfl)

theorem mem_insert_of_mem {sessions : Table ℕ Session} {id k : ℕ} {s : Session}
    (hid : id ∈ sessions) : k ∈ sessions.insert id s ↔ k ∈ sessions := by
  rw [AList.mem_insert]
  exact or_iff_right_of_imp fun heq => heq ▸ hid

/-- The worker starts with nothing. -/
theorem inStep_empty (hs : w.sessions = ∅) (hconn : w.net.connections = ∅)
    (hcmds : w.net.commands = []) (hevents : w.ctl.events = []) : w.InStep := by
  unfold InStep
  rw [hs, hevents, hcmds]
  refine ⟨?_, fun id hid => ?_, fun id hid => ?_, fun id hid => ?_, fun id hid => ?_, .nil, ?_,
    fun id hid => ?_, ?_⟩
  · unfold NetWorker.WellKeyed
    rw [hconn]
    exact Table.all_empty _
  · rw [hconn] at hid
    simp [NetWorker.Asked] at hid
  · simp at hid
  · simp [NetWorker.Fails] at hid
  · rw [hconn] at hid
    simp at hid
  · simp
  · simp [NetWorker.Fails] at hid
  · simp

/-- A step of the worker keeps its sessions and its connections in step, unless it is about to
stop the run. -/
theorem Move.inStep (hm : w.Move cfg i env sh r) (hs : w.Seated share) (hctl : w.ctl ≠ .closing)
    (h : w.InStep) :
    (w.ctl = .loopTop ∧ sh.stop = true) ∨ .storeStop ∈ r.2.1 ∨
      (r.2.2.ctl ≠ .closing ∧ r.2.2.InStep) := by
  have hgoto : ∀ {ctl ctl' : EventCtl}, w.ctl = ctl → ctl'.events = ctl.events → ctl' ≠ .closing →
      (w.ctl = .loopTop ∧ sh.stop = true) ∨ .storeStop ∈ r.2.1 ∨
        ((w.goto ctl').ctl ≠ .closing ∧ (w.goto ctl').InStep) :=
    fun hc hevents hne => .inr (.inr ⟨hne, h.move (hevents.trans (congrArg _ hc.symm))⟩)
  have hat : ∀ {ctl : EventCtl}, w.ctl = ctl →
      w.net.InStep (· ∈ w.sessions) ctl.events w.net.commands := by
    rintro ctl rfl
    exact h
  cases hm with
  | goes hg =>
    cases hg with
    | enter hc | sweep _ _ hc | swept hc | skip hc | pick hc | gone hc | handled hc | stay hc =>
      exact hgoto hc rfl (fun heq => nomatch heq)
    | @unknown ev events hc hl =>
      refine .inr (.inr ⟨(fun heq => nomatch heq), ?_⟩)
      refine (hat hc).handled fun k => ⟨fun hk => ⟨hk, ?_⟩, fun hk => hk.1⟩
      rintro ⟨-, rfl⟩
      exact AList.lookup_eq_none.mp hl hk
  | stopped hc hstop => exact .inl ⟨hc, hstop⟩
  | started hc hok =>
    refine .inr (.inr ⟨(fun heq => nomatch heq), ?_⟩)
    exact (hat hc).start hok
  | notStarted => exact .inr (.inl (List.mem_singleton.mpr rfl))
  | @opened next session hopens hok =>
    have hnext : next ≠ .closing := by
      rcases hopens.next with ⟨left, rfl⟩ | ⟨events, rfl⟩ <;> exact fun heq => nomatch heq
    refine .inr (.inr ⟨hnext, ?_⟩)
    have hopening := submitConnection_opening cfg env.submit w.net
    revert hok hopening
    generalize submitConnection cfg env.submit w.net = res
    intro hok hopening
    show res.1.InStep _ next.events res.1.commands
    rw [hopens.events]
    cases hopening with
    | denied hne => exact absurd hok hne
    | noNode => cases hok
    | queued _ hcmd => exact (hat rfl).asked hcmd rfl rfl fun k => AList.mem_insert _
  | notOpened => exact .inr (.inl (List.mem_singleton.mpr rfl))
  | acquires hc | refused hc | granted hc | waits _ hc | waited _ hc =>
    exact hgoto hc rfl (fun heq => nomatch heq)
  | @sent id now todo s hc hl | @sendFailed id now todo s hc hl =>
    refine .inr (.inr ⟨(fun heq => nomatch heq), ?_⟩)
    have hmine : s.connId ∈ w.sessions := by
      rw [hs.keyed id s hl]
      exact mem_sessions hl
    exact (hat hc).sending hmine (w.net.send_sending _ _ _)
  | @requested id now todo s hc hl =>
    have hkey := hs.keyed id s hl
    have hmem := mem_sessions hl
    have hmine : s.connId ∈ w.sessions := hkey ▸ hmem
    have hnet := (hat hc).sending hmine
      (w.net.send_sending s.connId (buildPayload cfg) env.submit)
    refine .inr (.inr ⟨(fun heq => nomatch heq), ?_⟩)
    exact hnet.sessions fun k => mem_insert_of_mem hmem
  | polled hc hok =>
    refine .inr (.inr ⟨(fun heq => nomatch heq), ?_⟩)
    have hin := hat hc
    have hcleared : NetWorker.InStep (· ∈ w.sessions) [] w.net.commands
        { w.net with recvEvents := [] } :=
      hin.congr hin.wellKeyed (fun _ => Iff.rfl) rfl (fun _ => Iff.rfl)
    exact NetWorker.inStep_pollOnce env.poll hcleared
  | pollFailed => exact .inr (.inl (List.mem_singleton.mpr rfl))
  | @errored ev events old hc hl herr =>
    refine .inr (.inr ⟨(fun heq => nomatch heq), ?_⟩)
    refine (hat hc).handled fun k => ?_
    show k ∈ w.sessions.erase ev.connId ↔ _
    rw [AList.mem_erase]
    exact ⟨fun hk => ⟨hk.2, fun heq => hk.1 heq.2⟩, fun hk => ⟨fun heq => hk.2 ⟨herr, heq⟩, hk.1⟩⟩
  | @received ev events old hc hl herr =>
    refine .inr (.inr ⟨(fun heq => nomatch heq), ?_⟩)
    have hkey : (dataEvent cfg env ev.data old).2.connId = ev.connId :=
      (dataEvent_connId cfg env ev.data old).trans (hs.keyed _ _ hl)
    refine (hat hc).handled fun k => ?_
    show k ∈ AList.insert (dataEvent cfg env ev.data old).2.connId _
      (w.sessions.erase ev.connId) ↔ _
    rw [AList.mem_insert, AList.mem_erase, hkey, herr]
    have hmem := mem_sessions hl
    by_cases hk : k = ev.connId
    · subst hk
      simp [hmem]
    · simp [hk]
  | @retried old events hc =>
    refine .inr (.inr ⟨(fun heq => nomatch heq), h.move ?_⟩)
    rw [hc]
    rfl
  | @givenUp old events hc =>
    refine .inr (.inr ⟨(fun heq => nomatch heq), h.move ?_⟩)
    rw [hc]
    rfl
  | closed hc => exact absurd hc hctl
  | returned hc => exact hgoto hc rfl (fun heq => nomatch heq)

end Step

end EventWorker

/-! ## Runs -/

namespace Engine

variable {cfg : Config} {beginNs : ℕ} {c : Conf cfg.threadCount}

/-- The sessions and the connections of the thread are in step, unless the run is to stop. -/
def Stepping {n : ℕ} (sh : Shared n) (t : Thread) : Prop :=
  sh.stop = true ∨ .storeStop ∈ t.ops ∨
    ∀ w, t.body = .event w → w.ctl ≠ .closing ∧ w.InStep

theorem Move.stepping {n : ℕ} {env : Env} {sh : Shared n} {i : Option (Fin n)} {t : Thread}
    {r : Shared n × Thread} (hm : Move cfg env sh i t r)
    (hs : ∀ k, i = some k → t.body.Seated (cfg.perWorker k)) (h : Stepping sh t) :
    Stepping r.1 r.2 := by
  cases hm with
  | @op _ op rest body r hx =>
    rcases h with hstop | hstore | hin
    · exact (hx.stop (.inl hstop)).imp_right .inl
    · exact (hx.stop (.inr hstore)).imp_right .inl
    · exact .inr (.inr hin)
  | @main m r hr => exact .inr (.inr fun w hw => nomatch hw)
  | @event k w r hm =>
    rcases h with hstop | hstore | hin
    · exact .inl (hm.stop.trans hstop)
    · cases hstore
    · obtain ⟨hctl, hin⟩ := hin w rfl
      rcases hm.inStep (hs k rfl) hctl hin with ⟨-, hstop⟩ | hstore | hkept
      · exact .inl (hm.stop.trans hstop)
      · exact .inr (.inl hstore)
      · refine .inr (.inr fun w' hw' => ?_)
        cases hw'
        exact hkept
  | slot hm =>
    rcases h with hstop | hstore | -
    · exact .inl (hm.stop.trans hstop)
    · cases hstore
    · exact .inr (.inr fun w hw => nomatch hw)
  | stay => exact h

theorem Runs.stepping (h : Runs cfg beginNs c) (i : Fin cfg.threadCount) :
    Stepping c.shared (c.locals (some i)) := by
  refine h.thread_invariant (R := Stepping) (some i) ?_ ?_ ?_
  · refine .inr (.inr fun w hw => ?_)
    have hbody : initialBody cfg i = .event w := hw
    unfold initialBody at hbody
    split_ifs at hbody
    · cases hbody
      exact ⟨(fun heq => nomatch heq), EventWorker.inStep_empty rfl rfl rfl rfl⟩
    · cases hbody
      exact ⟨(fun heq => nomatch heq), EventWorker.inStep_empty rfl rfl rfl rfl⟩
  · intro c e hc _ ht
    have hruns : Runs cfg beginNs c := hc
    exact (step_move cfg _ e c.shared _).stepping (fun k hk => hk ▸ hruns.seated k) ht
  · intro c j e _ _ _ ht
    exact ht.imp_left (step_move cfg j e c.shared _).stop_mono

/-- **Engine sessions and network connections stay in step.** With http, tcp or udp: at the top of
every iteration of a worker's loop, while stop has not been set, the keys of its sessions are
exactly the connections its `NetWorker` has and those still to be created; every session has the id
it is entered under, which is not `0`, and there are at most as many as the worker was given. All
workers together never have more sessions than connections were asked for. -/
theorem sessions_in_step (cfg : Config) (hp : cfg.protocol ≠ .https) {beginNs : ℕ}
    {c : Conf cfg.threadCount} (h : Runs cfg beginNs c) :
    (∀ i w, c.locals (some i) = ⟨[], .event w⟩ → w.ctl = .loopTop → c.shared.stop = false →
      (∀ id, id ∈ w.sessions ↔
        id ∈ w.net.connections ∨ ∃ cmd ∈ w.net.commands, cmd.opens = some id) ∧
      (∀ id s, w.sessions.lookup id = some s → s.connId = id ∧ id ≠ 0) ∧
      w.sessions.keys.length ≤ cfg.perWorker i) ∧
    ∑ i, (c.locals (some i)).body.sessionCount ≤ cfg.concurrency.toNat := by
  refine ⟨fun i w hw htop hrunning => ?_, h.sessions_le hp⟩
  have hseated : w.Seated (cfg.perWorker i) := by
    have hs := h.seated i
    rw [hw] at hs
    exact hs
  have hin : w.net.InStep (· ∈ w.sessions) [] w.net.commands := by
    rcases h.stepping i with hstop | hstore | hin
    · rw [hrunning] at hstop
      cases hstop
    · rw [hw] at hstore
      cases hstore
    · have hkept : w.net.InStep (· ∈ w.sessions) w.ctl.events w.net.commands :=
        (hin w (by rw [hw])).2
      rw [htop] at hkept
      exact hkept
  refine ⟨fun id => ⟨fun hid => ?_, fun hid => hin.live id hid⟩, fun id s hl => ?_, ?_⟩
  · rcases hin.known id hid with hconn | hasked | ⟨ev, hev, -⟩
    · exact .inl hconn
    · exact .inr hasked
    · cases hev
  · exact ⟨hseated.keyed id s hl, (hseated.below id s hl).1.ne'⟩
  · exact (Nat.le_add_right _ _).trans hseated.count

/-- The first connection of the worker was refused while a request was queued for it, and the
worker has asked for a second one. -/
def refused : Conf twoRequests.threadCount :=
  (init twoRequests 0).run (step twoRequests) (offline 27)

theorem sessions_in_step_refused :
    ∃ w, refused.locals firstWorker = ⟨[], .event w⟩ ∧ 2 ∈ w.sessions ∧
      (2 ∈ w.net.connections ∨ ∃ cmd ∈ w.net.commands, cmd.opens = some 2) ∧
      w.sessions.keys.length ≤ 1 := by
  have hrun : Runs twoRequests 0 refused := reachable_run _
  have hops : (refused.locals firstWorker).ops = [] := by decide +kernel
  obtain ⟨w, hw, htop, hmem⟩ : ∃ w, (refused.locals firstWorker).body = .event w ∧
      w.ctl = .loopTop ∧ 2 ∈ w.sessions := by
    have hbody : ((refused.locals firstWorker).body.event?.any fun w =>
        w.ctl = .loopTop ∧ 2 ∈ w.sessions) = true := by decide +kernel
    obtain ⟨w, hw, htest⟩ := (Option.any_eq_true _ _).mp hbody
    exact ⟨w, Body.event?_eq_some.mp hw, of_decide_eq_true htest⟩
  have hthread : refused.locals firstWorker = ⟨[], .event w⟩ := by rw [← hops, ← hw]
  obtain ⟨hkeys, -, hcount⟩ := (sessions_in_step twoRequests (by decide) hrun).1 ⟨0, by decide⟩ w
    hthread htop (by decide +kernel)
  exact ⟨w, hthread, hmem, (hkeys 2).mp hmem, hcount.trans (by decide)⟩

end Engine

end TitanBench
