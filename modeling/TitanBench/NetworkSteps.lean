import TitanBench.Lib.Mealy
import TitanBench.NetworkTables

/-!
# The network worker, step by step

A run of a worker in steps small enough that the submissions of other threads come in everywhere
they can: `ProcessCommands` first takes the queue, then executes the commands it has taken one at a
time, and a submission between two of them waits for the next call.

* `Polling.step` — one step; `pollOnce_steps` says that `PollOnce` is a run of them.
* `submit_enters` — everything a submission can do to the worker.
* `Idle` — what is left of a worker that is not started; `idle_step`.
* `Numbered` — no id is given out twice; `Numbered.step`, `Used.step`.
* `Consistent.step` — the two tables of the worker stay consistent.
-/

namespace TitanBench

namespace NetWorker

/-- A call, or a part of a poll. `create` answers the calls made for the next command. -/
inductive Step
  | start (sys : StartSys)
  | stop
  | submit (cmd : Command) (sys : SubmitSys)
  | clearEvents
  | take
  | execute (create : ℕ → CreateSys)
  | checkConnectTimeouts (nowNs : ℤ) (order : List ℕ)
  | dispatch (ev : ReadyEvent)

/-- The call that submits the command, with the id it gives out. A caller passes no id to the two
`Create` calls. -/
def submit (cmd : Command) (sys : SubmitSys) (w : NetWorker) : NetWorker × ℕ :=
  match cmd with
  | .createTcp _ endpoint timeoutMs =>
    ((w.createTcpConnection endpoint timeoutMs sys).1,
      (w.createTcpConnection endpoint timeoutMs sys).2.2)
  | .createUdp _ endpoint =>
    ((w.createUdpConnection endpoint sys).1, (w.createUdpConnection endpoint sys).2.2)
  | .send id payload => ((w.send id payload sys).1, 0)
  | .close id => ((w.closeConnection id sys).1, 0)

/-- A worker with the commands that `ProcessCommands` has taken and not yet executed. -/
structure Polling where
  net : NetWorker := {}
  taken : List Command := []

/-- `Stop` is not called inside a poll: no taken command is executed after it. -/
def Polling.step (p : Polling) : Step → Polling
  | .start sys => { p with net := (p.net.start sys).1 }
  | .stop => { net := p.net.stop }
  | .submit cmd sys => { p with net := (p.net.submit cmd sys).1 }
  | .clearEvents => { p with net := { p.net with recvEvents := [] } }
  | .take => { net := { p.net with commands := [] }, taken := p.taken ++ p.net.commands }
  | .execute create =>
    match p.taken with
    | [] => p
    | cmd :: cmds => { net := p.net.handleCommand create cmd, taken := cmds }
  | .checkConnectTimeouts nowNs order =>
    { p with net := p.net.checkConnectTimeouts nowNs order }
  | .dispatch ev => { p with net := p.net.dispatch ev }

@[simp] theorem Polling.step_start (p : Polling) (sys : StartSys) :
    (p.step (.start sys)).net = (p.net.start sys).1 := rfl

@[simp] theorem Polling.step_stop (p : Polling) : p.step .stop = { net := p.net.stop } := rfl

@[simp] theorem Polling.step_submit (p : Polling) (cmd : Command) (sys : SubmitSys) :
    (p.step (.submit cmd sys)).net = (p.net.submit cmd sys).1 := rfl

@[simp] theorem Polling.step_checkConnectTimeouts (p : Polling) (nowNs : ℤ) (order : List ℕ) :
    (p.step (.checkConnectTimeouts nowNs order)).net = p.net.checkConnectTimeouts nowNs order := rfl

@[simp] theorem Polling.step_dispatch (p : Polling) (ev : ReadyEvent) :
    (p.step (.dispatch ev)).net = p.net.dispatch ev := rfl

theorem Polling.step_execute_nil {p : Polling} (h : p.taken = []) (create : ℕ → CreateSys) :
    p.step (.execute create) = p := by
  simp only [step, h]

theorem Polling.step_execute_cons {p : Polling} {cmd : Command} {cmds : List Command}
    (h : p.taken = cmd :: cmds) (create : ℕ → CreateSys) :
    p.step (.execute create) = { net := p.net.handleCommand create cmd, taken := cmds } := by
  simp only [step, h]

abbrev Polling.run (p : Polling) (steps : List Step) : Polling := Mealy.run Polling.step p steps

/-- Each step of a run with the state it is taken in. -/
abbrev Polling.visits (p : Polling) (steps : List Step) : List (Polling × Step) :=
  Mealy.visits Polling.step p steps

/-- The command the step executes. -/
def Polling.executing (p : Polling) : Step → Option Command
  | .execute _ => p.taken.head?
  | _ => none

/-- The event a step dispatches. -/
def Step.dispatched : Step → Option ReadyEvent
  | .dispatch ev => some ev
  | _ => none

/-! ## `PollOnce` as steps -/

def processSteps (create : ℕ → CreateSys) (w : NetWorker) : List Step :=
  .take :: w.commands.map fun _ => .execute create

def readySteps : NetWorker → List ReadyEvent → List Step
  | _, [] => []
  | w, ev :: events =>
    (if w.wakeFd = some ev.fd then processSteps ev.create w else [.dispatch ev])
      ++ readySteps (w.handleReady ev) events

def pollSteps (sys : PollSys) (w : NetWorker) : List Step :=
  if w.started = false then []
  else
    processSteps sys.create w ++ [.checkConnectTimeouts sys.beforeNs sys.beforeOrder] ++
      match sys.wait with
      | .ready events =>
        readySteps
            ((w.processCommands sys.create).checkConnectTimeouts sys.beforeNs sys.beforeOrder)
            events
          ++ [.checkConnectTimeouts sys.afterNs sys.afterOrder]
      | _ => []

theorem Polling.run_append (p : Polling) (steps steps' : List Step) :
    p.run (steps ++ steps') = (p.run steps).run steps' := Mealy.run_append p steps steps'

theorem run_execute (create : ℕ → CreateSys) (cmds : List Command) (w : NetWorker) :
    Polling.run { net := w, taken := cmds } (cmds.map fun _ => .execute create) =
      { net := cmds.foldl (handleCommand create) w } := by
  induction cmds generalizing w with
  | nil => rfl
  | cons cmd cmds ih => exact ih _

theorem run_process (create : ℕ → CreateSys) (w : NetWorker) :
    Polling.run { net := w } (processSteps create w) = { net := w.processCommands create } :=
  run_execute create w.commands { w with commands := [] }

theorem run_readySteps (events : List ReadyEvent) (w : NetWorker) :
    Polling.run { net := w } (readySteps w events) = { net := events.foldl handleReady w } := by
  induction events generalizing w with
  | nil => rfl
  | cons ev events ih =>
    unfold readySteps
    rw [Polling.run_append, List.foldl_cons, ← ih]
    by_cases hwake : w.wakeFd = some ev.fd
    · simp only [handleReady, if_pos hwake]
      rw [run_process]
    · simp only [handleReady, if_neg hwake]
      rfl

/-- A poll that no other thread submits anything during. -/
theorem pollOnce_steps (sys : PollSys) (w : NetWorker) :
    Polling.run { net := w } (pollSteps sys w) = { net := (w.pollOnce sys).1 } := by
  unfold pollSteps pollOnce
  split_ifs with hs
  · rfl
  · rw [Polling.run_append, Polling.run_append, run_process]
    cases sys.wait with
    | interrupted => rfl
    | failed => rfl
    | ready events =>
      have hready := run_readySteps events
        ((w.processCommands sys.create).checkConnectTimeouts sys.beforeNs sys.beforeOrder)
      dsimp only
      rw [Polling.run_append]
      exact congrArg (fun p => Polling.run p _) hready

/-! ## Submissions -/

/-- What a submission leaves alone. -/
structure SameNet (w w' : NetWorker) : Prop where
  started : w'.started = w.started
  epollFd : w'.epollFd = w.epollFd
  wakeFd : w'.wakeFd = w.wakeFd
  connections : w'.connections = w.connections
  fdToConn : w'.fdToConn = w.fdToConn
  recvEvents : w'.recvEvents = w.recvEvents
  bytesReceived : w'.bytesReceived = w.bytesReceived
  closed : w'.closed = w.closed

/-- What a submission does to the queue of a worker that gives out the id `next`. -/
inductive Enqueues (next : ℕ) : List Command → ℕ → ℕ → Prop
  | refused : Enqueues next [] next 0
  | numbered : Enqueues next [] (next + 1) 0
  | plain (cmd : Command) : cmd.opens = none → Enqueues next [cmd] next 0
  | create (cmd : Command) : cmd.opens = some next → Enqueues next [cmd] (next + 1) next

/-- **The inversion of a submission.** It enters at most one command, and may give out an id. -/
theorem submit_enters (cmd : Command) (sys : SubmitSys) (w : NetWorker) :
    ∃ cmds next,
      (w.submit cmd sys).1 =
        { w with
          commands := w.commands ++ cmds
          submitted := w.submitted ++ cmds.flatMap Command.payloads
          nextConnId := next } ∧
      (w.started = false → cmds = []) ∧
      Enqueues w.nextConnId cmds next (w.submit cmd sys).2 := by
  cases cmd with
  | createTcp id endpoint timeoutMs =>
    unfold submit createTcpConnection
    dsimp only
    split_ifs with _ hstart
    · exact ⟨[], _, by simp, fun _ => rfl, .refused⟩
    · exact ⟨[], _, by simp, fun _ => rfl, .refused⟩
    · exact ⟨[], _, by simp, fun _ => rfl, .numbered⟩
    · exact ⟨[.createTcp w.nextConnId endpoint timeoutMs], _, by simp [enqueueCommand],
        fun h => absurd h hstart, .create _ rfl⟩
  | createUdp id endpoint =>
    unfold submit createUdpConnection
    dsimp only
    split_ifs with _ hstart
    · exact ⟨[], _, by simp, fun _ => rfl, .refused⟩
    · exact ⟨[], _, by simp, fun _ => rfl, .refused⟩
    · exact ⟨[], _, by simp, fun _ => rfl, .numbered⟩
    · exact ⟨[.createUdp w.nextConnId endpoint], _, by simp [enqueueCommand],
        fun h => absurd h hstart, .create _ rfl⟩
  | send id payload =>
    unfold submit NetWorker.send
    dsimp only
    split_ifs with _ hstart
    · exact ⟨[], _, by simp, fun _ => rfl, .refused⟩
    · exact ⟨[], _, by simp, fun _ => rfl, .refused⟩
    · exact ⟨[], _, by simp, fun _ => rfl, .refused⟩
    · exact ⟨[.send id payload], _, by simp [enqueueCommand],
        fun h => absurd h hstart, .plain _ rfl⟩
  | close id =>
    unfold submit closeConnection
    dsimp only
    split_ifs with _ hstart
    · exact ⟨[], _, by simp, fun _ => rfl, .refused⟩
    · exact ⟨[], _, by simp, fun _ => rfl, .refused⟩
    · exact ⟨[], _, by simp, fun _ => rfl, .refused⟩
    · exact ⟨[.close id], _, by simp [enqueueCommand],
        fun h => absurd h hstart, .plain _ rfl⟩

theorem submit_sameNet (cmd : Command) (sys : SubmitSys) (w : NetWorker) :
    SameNet w (w.submit cmd sys).1 := by
  obtain ⟨cmds, next, hw, -⟩ := submit_enters cmd sys w
  rw [hw]
  exact ⟨rfl, rfl, rfl, rfl, rfl, rfl, rfl, rfl⟩

theorem submit_enqueues (cmd : Command) (sys : SubmitSys) (w : NetWorker) :
    ∃ cmds, (w.submit cmd sys).1.commands = w.commands ++ cmds ∧
      (w.started = false → cmds = []) ∧
      Enqueues w.nextConnId cmds (w.submit cmd sys).1.nextConnId (w.submit cmd sys).2 := by
  obtain ⟨cmds, next, hw, hstart, h⟩ := submit_enters cmd sys w
  rw [hw]
  exact ⟨cmds, rfl, hstart, h⟩

/-! ## A worker that is not started -/

/-- Nothing is open, queued or taken. -/
structure Idle (p : Polling) : Prop where
  epollFd : p.net.epollFd = none
  wakeFd : p.net.wakeFd = none
  connections : p.net.connections = ∅
  commands : p.net.commands = []
  taken : p.taken = []

theorem dispatch_empty {w : NetWorker} (h : w.connections = ∅) (ev : ReadyEvent) :
    w.dispatch ev = w := by
  unfold dispatch
  cases w.fdToConn.lookup ev.fd with
  | none => rfl
  | some key =>
    dsimp only
    rw [h]
    rfl

theorem checkConnectTimeouts_empty {w : NetWorker} (h : w.connections = ∅) (nowNs : ℤ)
    (order : List ℕ) : w.checkConnectTimeouts nowNs order = w := by
  unfold checkConnectTimeouts Table.visit
  rw [h]
  cases order <;> rfl

theorem start_started {w : NetWorker} (h : w.started = true) (sys : StartSys) :
    (w.start sys).1 = w := by
  unfold start
  rw [if_pos h]

/-- `Start` on a worker that is not started: no epoll descriptor, no wake descriptor, no
registration, or success. -/
theorem start_cases {w : NetWorker} (h : w.started = false) (sys : StartSys) :
    (sys.epollFd = none ∧ (w.start sys).1 = { w with started := false, epollFd := none }) ∨
    (∃ e, sys.epollFd = some e ∧ sys.wakeFd = none ∧
      (w.start sys).1 =
        { { w with started := true, epollFd := some e }.shutdownAll with started := false }) ∨
    (∃ e k, sys.epollFd = some e ∧ sys.wakeFd = some k ∧ sys.epollAdd = false ∧
      (w.start sys).1 =
        { { w with started := true, epollFd := some e, wakeFd := some k }.shutdownAll with
          started := false }) ∨
    ∃ e k, sys.epollFd = some e ∧ sys.wakeFd = some k ∧ sys.epollAdd ≠ false ∧
      (w.start sys).1 = { w with started := true, epollFd := some e, wakeFd := some k } := by
  unfold start
  rw [if_neg (by simp [h])]
  cases sys.epollFd with
  | none => exact .inl ⟨rfl, rfl⟩
  | some e =>
    cases sys.wakeFd with
    | none => exact .inr (.inl ⟨e, rfl, rfl, rfl⟩)
    | some k =>
      dsimp only
      by_cases hadd : sys.epollAdd = false
      · rw [if_pos hadd]
        exact .inr (.inr (.inl ⟨e, k, rfl, rfl, hadd, rfl⟩))
      · rw [if_neg hadd]
        exact .inr (.inr (.inr ⟨e, k, rfl, rfl, hadd, rfl⟩))

/-- A worker that is not started and has nothing stays so until it starts. -/
theorem Idle.start {p : Polling} (h : Idle p) (hnot : p.net.started = false) (sys : StartSys)
    (hstopped : (p.net.start sys).1.started = false) :
    Idle { p with net := (p.net.start sys).1 } := by
  rcases start_cases hnot sys with ⟨-, hw⟩ | ⟨e, -, -, hw⟩ | ⟨e, k, -, -, -, hw⟩ |
    ⟨e, k, -, -, -, hw⟩
  · rw [hw]
    exact ⟨rfl, h.wakeFd, h.connections, h.commands, h.taken⟩
  · rw [hw]
    exact ⟨rfl, rfl, rfl, rfl, h.taken⟩
  · rw [hw]
    exact ⟨rfl, rfl, rfl, rfl, h.taken⟩
  · rw [hw] at hstopped
    cases hstopped

theorem step_started (p : Polling) (s : Step) (h : p.net.started = true) :
    (p.step s).net.started = true ∨ s = .stop := by
  cases s with
  | start sys =>
    rw [Polling.step_start, start_started h]
    exact .inl h
  | stop => exact .inr rfl
  | submit cmd sys => exact .inl ((submit_sameNet cmd sys p.net).started.trans h)
  | clearEvents => exact .inl h
  | take => exact .inl h
  | execute create =>
    cases ht : p.taken with
    | nil =>
      rw [Polling.step_execute_nil ht]
      exact .inl h
    | cons cmd cmds =>
      rw [Polling.step_execute_cons ht]
      exact .inl ((moves_handleCommand create p.net cmd).started.trans h)
  | checkConnectTimeouts nowNs order =>
    exact .inl ((moves_checkConnectTimeouts p.net nowNs order).started.trans h)
  | dispatch ev => exact .inl ((moves_dispatch p.net ev).started.trans h)

/-- A worker that is not started has nothing. -/
theorem idle_step (p : Polling) (s : Step) (h : p.net.started = false → Idle p) :
    (p.step s).net.started = false → Idle (p.step s) := by
  intro hstopped
  by_cases hp : p.net.started = true
  · rcases step_started p s hp with hs | rfl
    · rw [hs] at hstopped
      cases hstopped
    · have hstop : p.net.stop = { p.net with started := false }.shutdownAll := by
        unfold stop
        rw [if_neg (by simp [hp])]
      unfold Polling.step
      dsimp only
      rw [hstop]
      exact ⟨rfl, rfl, rfl, rfl, rfl⟩
  · have hidle := h (by simpa using hp)
    have hnot : p.net.started = false := by simpa using hp
    cases s with
    | start sys => exact hidle.start hnot sys hstopped
    | stop =>
      have hstop : p.net.stop = p.net := by
        unfold stop
        rw [if_pos hnot]
      unfold Polling.step
      dsimp only
      rw [hstop]
      exact ⟨hidle.epollFd, hidle.wakeFd, hidle.connections, hidle.commands, rfl⟩
    | submit cmd sys =>
      have hsame := submit_sameNet cmd sys p.net
      obtain ⟨cmds, hcmds, hnone, -⟩ := submit_enqueues cmd sys p.net
      rw [hnone hnot, List.append_nil] at hcmds
      exact ⟨hsame.epollFd.trans hidle.epollFd, hsame.wakeFd.trans hidle.wakeFd,
        hsame.connections.trans hidle.connections, hcmds.trans hidle.commands, hidle.taken⟩
    | clearEvents =>
      exact ⟨hidle.epollFd, hidle.wakeFd, hidle.connections, hidle.commands, hidle.taken⟩
    | take =>
      refine ⟨hidle.epollFd, hidle.wakeFd, hidle.connections, rfl, ?_⟩
      simp [Polling.step, hidle.taken, hidle.commands]
    | execute create =>
      rw [Polling.step_execute_nil hidle.taken]
      exact hidle
    | checkConnectTimeouts nowNs order =>
      have hsame := checkConnectTimeouts_empty hidle.connections nowNs order
      simpa only [Polling.step, hsame] using hidle
    | dispatch ev =>
      have hsame := dispatch_empty hidle.connections ev
      simpa only [Polling.step, hsame] using hidle

/-! ## Ids -/

theorem Churn.connections_subset {w w' : NetWorker} (h : Churn w w') {id : ℕ}
    (hid : id ∈ w'.connections) : id ∈ w.connections := by
  induction h with
  | frame hs => rwa [hs.connections] at hid
  | alter hl _ =>
    rcases (AList.mem_insert _).mp hid with rfl | hid
    · exact mem_of_lookup hl
    · exact hid
  | data _ _ => exact hid
  | remove _ _ =>
    rw [removeConnection_connections] at hid
    exact (AList.mem_erase.mp hid).2
  | trans _ _ ih ih' => exact ih (ih' hid)

theorem Executes.connections_subset {create : ℕ → CreateSys} {w w' : NetWorker} {cmd : Command}
    (h : Executes create w cmd w') {id : ℕ} (hid : id ∈ w'.connections) :
    id ∈ w.connections ∨ cmd.opens = some id := by
  have hremove : ∀ k err, id ∈ (w.removeConnection k err).connections → id ∈ w.connections := by
    intro k err hin
    rw [removeConnection_connections] at hin
    exact (AList.mem_erase.mp hin).2
  cases h with
  | opened mask hopens _ _ _ _ _ hchurn =>
    rcases (AList.mem_insert _).mp (hchurn.connections_subset hid) with rfl | hin
    · exact .inr hopens
    · exact .inl hin
  | refused fd _ _ _ _ hs =>
    have hrelease := (sameBooks_releaseFd w fd).connections
    rw [hs.connections] at hid
    exact .inl (hrelease ▸ hid)
  | collided _ _ => exact .inl (hremove _ _ hid)
  | sent _ hchurn => exact .inl (hchurn.connections_subset hid)
  | missed _ hs =>
    rw [hs.connections] at hid
    exact .inl hid
  | closed k => exact .inl (hremove _ _ hid)

theorem start_queue (w : NetWorker) (sys : StartSys) :
    (w.start sys).1.nextConnId = w.nextConnId ∧
      (w.start sys).1.commands.Sublist w.commands := by
  by_cases hs : w.started = true
  · rw [start_started hs]
    exact ⟨rfl, .refl _⟩
  · rcases start_cases (by simpa using hs) sys with ⟨-, hw⟩ | ⟨e, -, -, hw⟩ |
      ⟨e, k, -, -, -, hw⟩ | ⟨e, k, -, -, -, hw⟩ <;> rw [hw]
    · exact ⟨rfl, .refl _⟩
    · exact ⟨rfl, List.nil_sublist _⟩
    · exact ⟨rfl, List.nil_sublist _⟩
    · exact ⟨rfl, .refl _⟩

theorem stop_queue (w : NetWorker) :
    w.stop.nextConnId = w.nextConnId ∧ w.stop.commands.Sublist w.commands := by
  unfold NetWorker.stop
  split_ifs
  · exact ⟨rfl, .refl _⟩
  · exact ⟨rfl, List.nil_sublist _⟩

theorem wellKeyed_congr {w w' : NetWorker} (h : w.WellKeyed)
    (hconn : w'.connections = w.connections) : w'.WellKeyed := by
  unfold WellKeyed
  rw [hconn]
  exact h

namespace Polling

/-- The ids of the `Create` commands that are still to be executed. -/
def waiting (p : Polling) : List ℕ := (p.taken ++ p.net.commands).filterMap Command.opens

/-- The id of the connection the step is to open. -/
def opening (p : Polling) (s : Step) : Option ℕ := (p.executing s).bind Command.opens

/-- The id has been given out, and no connection is to be opened under it any more. -/
def Used (p : Polling) (id : ℕ) : Prop := id < p.net.nextConnId ∧ id ∉ p.waiting

/-- The ids that wait have been given out, each once, and none of them is in the table. -/
structure Numbered (p : Polling) : Prop where
  nodup : p.waiting.Nodup
  below : ∀ id ∈ p.waiting, id < p.net.nextConnId
  used : ∀ id ∈ p.net.connections, p.Used id

variable {p : Polling} {s : Step} {id : ℕ}

theorem waiting_sublist {p' : Polling} (htaken : p'.taken.Sublist p.taken)
    (hqueue : p'.net.commands.Sublist p.net.commands) : p'.waiting.Sublist p.waiting :=
  (htaken.append hqueue).filterMap _

theorem submit_waiting (p : Polling) (cmd : Command) (sys : SubmitSys) :
    ∃ new, (p.step (.submit cmd sys)).waiting = p.waiting ++ new ∧
      (new = [] ∨ new = [p.net.nextConnId]) ∧
      p.net.nextConnId + new.length ≤ (p.step (.submit cmd sys)).net.nextConnId := by
  obtain ⟨cmds, hcmds, -, hadd⟩ := submit_enqueues cmd sys p.net
  have hwait : (p.step (.submit cmd sys)).waiting = p.waiting ++ cmds.filterMap Command.opens := by
    show (p.taken ++ (p.net.submit cmd sys).1.commands).filterMap _ = _
    rw [hcmds, ← List.append_assoc, List.filterMap_append]
    rfl
  refine ⟨cmds.filterMap Command.opens, hwait, ?_⟩
  rw [step_submit]
  generalize (p.net.submit cmd sys).1.nextConnId = next at hadd
  generalize (p.net.submit cmd sys).2 = id at hadd
  cases hadd with
  | refused => exact ⟨.inl rfl, le_rfl⟩
  | numbered => exact ⟨.inl rfl, Nat.le_succ _⟩
  | plain cmd hopens =>
    rw [List.filterMap_cons_none hopens]
    exact ⟨.inl rfl, le_rfl⟩
  | create cmd hopens =>
    rw [List.filterMap_cons_some hopens]
    exact ⟨.inr rfl, le_rfl⟩

/-- The first command taken no longer waits once it is executed. -/
theorem execute_waiting {cmd : Command} {cmds : List Command} (ht : p.taken = cmd :: cmds)
    (create : ℕ → CreateSys) :
    p.waiting = (p.opening (.execute create)).toList ++ (p.step (.execute create)).waiting := by
  have hqueue := (handleCommand_executes create p.net cmd).sameQueue
  have hopening : p.opening (.execute create) = cmd.opens := by
    simp [opening, executing, ht]
  have hrest : (p.step (.execute create)).waiting =
      (cmds ++ p.net.commands).filterMap Command.opens := by
    rw [step_execute_cons ht]
    unfold waiting
    rw [hqueue.commands]
  rw [hopening, hrest]
  unfold waiting
  rw [ht, List.cons_append]
  cases hopens : cmd.opens with
  | none => exact List.filterMap_cons_none hopens
  | some id => exact List.filterMap_cons_some hopens

/-- What a step does to the ids: the ids that wait afterwards, and the one it opens, have waited
before or are given out by it. -/
theorem step_waiting (p : Polling) (s : Step) :
    ∃ new, ((p.opening s).toList ++ (p.step s).waiting).Sublist (p.waiting ++ new) ∧
      (new = [] ∨ new = [p.net.nextConnId]) ∧
      p.net.nextConnId + new.length ≤ (p.step s).net.nextConnId := by
  have hsame : (p.step s).net.nextConnId = p.net.nextConnId →
      ((p.opening s).toList ++ (p.step s).waiting).Sublist p.waiting →
      ∃ new, ((p.opening s).toList ++ (p.step s).waiting).Sublist (p.waiting ++ new) ∧
        (new = [] ∨ new = [p.net.nextConnId]) ∧
        p.net.nextConnId + new.length ≤ (p.step s).net.nextConnId := by
    intro hnext hsub
    refine ⟨[], ?_, .inl rfl, hnext.ge⟩
    rw [List.append_nil]
    exact hsub
  cases s with
  | start sys =>
    obtain ⟨hnext, hqueue⟩ := start_queue p.net sys
    exact hsame hnext (waiting_sublist (.refl _) hqueue)
  | stop =>
    obtain ⟨hnext, hqueue⟩ := stop_queue p.net
    exact hsame hnext (waiting_sublist (List.nil_sublist _) hqueue)
  | submit cmd sys =>
    obtain ⟨new, hwait, hnew⟩ := submit_waiting p cmd sys
    refine ⟨new, ?_, hnew⟩
    rw [hwait]
    exact .refl _
  | clearEvents => exact hsame rfl (.refl _)
  | take =>
    refine hsame rfl ?_
    show ((p.taken ++ p.net.commands) ++ []).filterMap _ |>.Sublist _
    rw [List.append_nil]
    exact .refl _
  | execute create =>
    cases ht : p.taken with
    | nil =>
      refine hsame (by rw [step_execute_nil ht]) ?_
      rw [step_execute_nil ht]
      simp only [opening, executing, ht]
      exact .refl _
    | cons cmd cmds =>
      have hnext := (handleCommand_executes create p.net cmd).sameQueue.nextConnId
      refine hsame (by rw [step_execute_cons ht]; exact hnext) ?_
      rw [← execute_waiting ht create]
  | checkConnectTimeouts nowNs order =>
    have hqueue := (churn_checkConnectTimeouts p.net nowNs order).sameQueue
    refine hsame hqueue.nextConnId (waiting_sublist (.refl _) ?_)
    exact hqueue.commands.symm ▸ List.Sublist.refl p.net.commands
  | dispatch ev =>
    have hqueue := (churn_dispatch p.net ev).sameQueue
    refine hsame hqueue.nextConnId (waiting_sublist (.refl _) ?_)
    exact hqueue.commands.symm ▸ List.Sublist.refl p.net.commands

theorem step_connections (hid : id ∈ (p.step s).net.connections) :
    id ∈ p.net.connections ∨ p.opening s = some id := by
  cases s with
  | start sys =>
    rw [step_start] at hid
    by_cases hs : p.net.started = true
    · rw [start_started hs] at hid
      exact .inl hid
    · rcases start_cases (by simpa using hs) sys with ⟨-, hw⟩ | ⟨e, -, -, hw⟩ |
        ⟨e, k, -, -, -, hw⟩ | ⟨e, k, -, -, -, hw⟩ <;> rw [hw] at hid
      · exact .inl hid
      · cases hid
      · cases hid
      · exact .inl hid
  | stop =>
    rw [step_stop] at hid
    unfold NetWorker.stop at hid
    split_ifs at hid
    · exact .inl hid
    · cases hid
  | submit cmd sys =>
    have hsame := (submit_sameNet cmd sys p.net).connections
    exact .inl (hsame ▸ hid)
  | clearEvents => exact .inl hid
  | take => exact .inl hid
  | execute create =>
    cases ht : p.taken with
    | nil =>
      rw [step_execute_nil ht] at hid
      exact .inl hid
    | cons cmd cmds =>
      rw [step_execute_cons ht] at hid
      have hopening : p.opening (.execute create) = cmd.opens := by
        simp [opening, executing, ht]
      rw [hopening]
      exact (handleCommand_executes create p.net cmd).connections_subset hid
  | checkConnectTimeouts nowNs order =>
    exact .inl ((churn_checkConnectTimeouts p.net nowNs order).connections_subset hid)
  | dispatch ev => exact .inl ((churn_dispatch p.net ev).connections_subset hid)

/-- Once used, never again. -/
theorem Used.step (h : p.Used id) (s : Step) : (p.step s).Used id := by
  obtain ⟨new, hsub, hnew, hnext⟩ := p.step_waiting s
  refine ⟨by have := h.1; omega, fun hid => ?_⟩
  rcases List.mem_append.mp (hsub.subset (List.mem_append_right _ hid)) with hin | hin
  · exact h.2 hin
  · rcases hnew with rfl | rfl
    · cases hin
    · have := h.1
      rw [List.mem_singleton.mp hin] at this
      exact lt_irrefl _ this

theorem Numbered.nodup_append (h : p.Numbered) {new : List ℕ}
    (hnew : new = [] ∨ new = [p.net.nextConnId]) : (p.waiting ++ new).Nodup := by
  rcases hnew with rfl | rfl
  · rw [List.append_nil]
    exact h.nodup
  · refine List.nodup_append'.mpr ⟨h.nodup, List.nodup_singleton _, ?_⟩
    rw [List.disjoint_singleton]
    exact fun hin => lt_irrefl _ (h.below _ hin)

/-- The id a step opens has waited, and is used from then on. -/
theorem Numbered.opening (h : p.Numbered) (hopening : p.opening s = some id) :
    id ∈ p.waiting ∧ (p.step s).Used id := by
  obtain ⟨new, hsub, hnew, hnext⟩ := p.step_waiting s
  have hwait : id ∈ p.waiting := by
    unfold Polling.opening executing at hopening
    cases s with
    | execute create =>
      cases ht : p.taken with
      | nil =>
        rw [ht] at hopening
        cases hopening
      | cons cmd cmds =>
        rw [ht] at hopening
        refine List.mem_filterMap.mpr ⟨cmd, ?_, hopening⟩
        rw [ht]
        exact List.mem_append_left _ List.mem_cons_self
    | _ => cases hopening
  refine ⟨hwait, ?_, fun hin => ?_⟩
  · have hlt := h.below id hwait
    omega
  · rw [hopening] at hsub
    have hnodup := hsub.nodup (h.nodup_append hnew)
    exact (List.nodup_cons.mp hnodup).1 hin

theorem Numbered.step (h : p.Numbered) (s : Step) : (p.step s).Numbered := by
  obtain ⟨new, hsub, hnew, hnext⟩ := p.step_waiting s
  have hrest : (p.step s).waiting.Sublist (p.waiting ++ new) :=
    (List.sublist_append_right _ _).trans hsub
  refine ⟨hrest.nodup (h.nodup_append hnew), fun id hid => ?_, fun id hid => ?_⟩
  · rcases List.mem_append.mp (hrest.subset hid) with hin | hin
    · have hlt := h.below id hin
      omega
    · rcases hnew with rfl | rfl
      · cases hin
      · rw [List.mem_singleton.mp hin]
        exact hnext
  · rcases step_connections hid with hin | hopening
    · exact (h.used id hin).step s
    · exact (h.opening hopening).2

theorem step_wellKeyed (h : p.net.WellKeyed) (s : Step) : (p.step s).net.WellKeyed := by
  cases s with
  | start sys =>
    rw [step_start]
    by_cases hs : p.net.started = true
    · rw [start_started hs]
      exact h
    · rcases start_cases (by simpa using hs) sys with ⟨-, hw⟩ | ⟨e, -, -, hw⟩ |
        ⟨e, k, -, -, -, hw⟩ | ⟨e, k, -, -, -, hw⟩ <;> rw [hw]
      · exact h
      · exact Table.all_empty _
      · exact Table.all_empty _
      · exact h
  | stop =>
    rw [step_stop]
    unfold NetWorker.stop
    dsimp only
    split_ifs
    · exact h
    · exact Table.all_empty _
  | submit cmd sys => exact wellKeyed_congr h (submit_sameNet cmd sys p.net).connections
  | clearEvents => exact h
  | take => exact h
  | execute create =>
    cases ht : p.taken with
    | nil =>
      rw [step_execute_nil ht]
      exact h
    | cons cmd cmds =>
      rw [step_execute_cons ht]
      exact (moves_handleCommand create p.net cmd).wellKeyed h
  | checkConnectTimeouts nowNs order =>
    exact (moves_checkConnectTimeouts p.net nowNs order).wellKeyed h
  | dispatch ev => exact (moves_dispatch p.net ev).wellKeyed h

/-- What holds of every worker from its construction on: a worker that is not started has nothing,
no id is given out twice, and each connection is entered under its own id. -/
structure Sane (p : Polling) : Prop where
  idle : p.net.started = false → Idle p
  numbered : p.Numbered
  wellKeyed : p.net.WellKeyed

theorem sane_init : Sane {} := by
  refine ⟨fun _ => ⟨rfl, rfl, rfl, rfl, rfl⟩, ⟨List.nodup_nil, ?_, ?_⟩, Table.all_empty _⟩ <;>
    intro id h <;> cases h

theorem Sane.step (h : p.Sane) (s : Step) : (p.step s).Sane :=
  ⟨idle_step p s h.idle, h.numbered.step s, step_wellKeyed h.wellKeyed s⟩

theorem Sane.run (h : p.Sane) (steps : List Step) : (p.run steps).Sane :=
  @Mealy.run_invariant _ _ Polling.step Sane (fun _ => True) (fun _ s _ h => h.step s) p h steps
    fun _ _ => trivial

theorem Sane.visited (h : p.Sane) {steps : List Step} {x : Polling × Step}
    (hx : x ∈ p.visits steps) : x.1.Sane :=
  @Mealy.visited_invariant _ _ Polling.step Sane (fun _ s h => h.step s) p h steps x hx

/-! ## Descriptors -/

/-- What `socket` returns for the command the step executes, if it is asked, is not open. -/
def Fresh (p : Polling) (s : Step) : Prop :=
  match s with
  | .execute create => ∀ cmd ∈ p.taken.head?, FreshSocket create p.net cmd
  | _ => True

instance (p : Polling) (s : Step) : Decidable (p.Fresh s) := by
  cases s <;> unfold Fresh <;> infer_instance

/-- The same for all steps of a run. -/
def FreshSteps (p : Polling) (steps : List Step) : Prop := ∀ x ∈ p.visits steps, x.1.Fresh x.2

instance (p : Polling) (steps : List Step) : Decidable (p.FreshSteps steps) := by
  unfold FreshSteps
  infer_instance

theorem freshSteps_append {steps steps' : List Step} :
    p.FreshSteps (steps ++ steps') ↔ p.FreshSteps steps ∧ (p.run steps).FreshSteps steps' := by
  unfold FreshSteps
  rw [visits, Mealy.visits_append]
  exact List.forall_mem_append

theorem consistent_step (h : p.net.Consistent) (hfresh : p.Fresh s) :
    (p.step s).net.Consistent := by
  cases s with
  | start sys => exact h.start sys
  | stop => exact h.stop
  | submit cmd sys =>
    have hsame := submit_sameNet cmd sys p.net
    exact h.congr hsame.connections hsame.fdToConn
  | clearEvents => exact h.congr rfl rfl
  | take => exact h.congr rfl rfl
  | execute create =>
    cases ht : p.taken with
    | nil =>
      rw [step_execute_nil ht]
      exact h
    | cons cmd cmds =>
      rw [step_execute_cons ht]
      have hsocket : FreshSocket create p.net cmd := by
        apply hfresh
        rw [ht]
        rfl
      exact (handleCommand_executes create p.net cmd).consistent hsocket h
  | checkConnectTimeouts nowNs order =>
    exact (churn_checkConnectTimeouts p.net nowNs order).consistent h
  | dispatch ev => exact (churn_dispatch p.net ev).consistent h

theorem consistent_run (h : p.net.Consistent) {steps : List Step} (hfresh : p.FreshSteps steps) :
    (p.run steps).net.Consistent :=
  @Mealy.run_invariant _ _ Polling.step (fun p => p.net.Consistent) (fun x => x.1.Fresh x.2)
    (fun _ _ hfresh h => consistent_step h hfresh) p h steps hfresh

end Polling

end NetWorker

end TitanBench
