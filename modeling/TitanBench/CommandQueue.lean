import TitanBench.Lib.Chain
import TitanBench.Lib.Threads
import TitanBench.NetworkTables

/-!
# The command queue, step by step

The lock-free queue between the threads that submit commands and the thread that polls, between a
`Start` and the next `Stop`. One step is one access to the shared memory: a load, a store or a
compare-exchange. The heap of command nodes has two lists in it, both linked through `next`: the
stack of pushed commands and the free list.

* `submitStep` — `CreateTcpConnection`, `CreateUdpConnection`, `Send`, `Close` with `AcquireCommand`
  and `EnqueueCommand`.
* `processStep` — `ProcessCommands` with `DrainCommands` and `ReleaseCommand`; `pollStep` is the
  rest of `PollOnce`.
* `queueLog` — what a run submits, executes and removes.

The polling thread keeps the connections as a `NetWorker` whose own `commands` stay empty.
Sequential consistency is assumed. A compare-exchange may fail spuriously.
-/

namespace TitanBench

open Chain Threads

/-! ## Memory -/

/-- A command node, with the fields of its command in one. -/
structure CommandNode where
  command : Command := .close 0
  next : Option ℕ := none

/-- The shared memory. The nodes from `allocated` on have never been used. -/
structure Memory where
  nodes : ℕ → CommandNode := fun _ => {}
  allocated : ℕ := 0
  commandHead : Option ℕ := none
  commandFreeHead : Option ℕ := none
  nextConnId : ℕ := 1
  started : Bool := true

namespace Memory

def next (m : Memory) (a : ℕ) : Option ℕ := (m.nodes a).next

def command (m : Memory) (a : ℕ) : Command := (m.nodes a).command

def setNext (a : ℕ) (next : Option ℕ) (m : Memory) : Memory :=
  { m with nodes := Function.update m.nodes a { m.nodes a with next := next } }

def setCommand (a : ℕ) (cmd : Command) (m : Memory) : Memory :=
  { m with nodes := Function.update m.nodes a { m.nodes a with command := cmd } }

end Memory

/-- What a thread may be told on one step. `submit` is the call an idle caller makes next, `alloc`
whether `new` succeeds. -/
structure QueueEnv where
  submit : Command := .close 0
  spurious : Bool := false
  alloc : Bool := true
  create : ℕ → CreateSys := fun _ => {}
  nowNs : ℤ := 0
  order : List ℕ := []
  wait : WaitResult := .ready []

/-! ## Submissions -/

/-- The check of the arguments. A caller passes no id to the two `Create` calls. -/
def Command.valid : Command → Bool
  | .createTcp _ endpoint timeoutMs => endpoint.host ≠ [] && endpoint.port ≠ 0 && timeoutMs > 0
  | .createUdp _ endpoint => endpoint.host ≠ [] && endpoint.port ≠ 0
  | .send id payload => id ≠ 0 && payload ≠ []
  | .close id => id ≠ 0

/-- A `Create` command gets the id it is numbered with. -/
def Command.number (id : ℕ) : Command → Command
  | .createTcp _ endpoint timeoutMs => .createTcp id endpoint timeoutMs
  | .createUdp _ endpoint => .createUdp id endpoint
  | cmd => cmd

/-- Where a caller is in a submission of `cmd`; `node` is the node it has acquired. -/
inductive CallerPc
  | idle
  | starting (cmd : Command)
  | numbering (cmd : Command)
  | loadFree (cmd : Command)
  | readNext (cmd : Command) (head : ℕ)
  | casFree (cmd : Command) (head : ℕ) (next : Option ℕ)
  | allocate (cmd : Command)
  | clearNext (cmd : Command) (node : ℕ)
  | fill (cmd : Command) (node : ℕ)
  | loadHead (cmd : Command) (node : ℕ)
  | storeNext (cmd : Command) (node : ℕ) (oldHead : Option ℕ)
  | casHead (cmd : Command) (node : ℕ) (oldHead : Option ℕ)
  | wake (cmd : Command)
  deriving DecidableEq

namespace CallerPc

/-- The test of `AcquireCommand`'s loop on the head it has loaded. -/
def tryAcquire (cmd : Command) : Option ℕ → CallerPc
  | some head => .readNext cmd head
  | none => .allocate cmd

/-- The node the caller owns: it has acquired it and not yet pushed it. -/
def owned : CallerPc → Option ℕ
  | .clearNext _ node | .fill _ node | .loadHead _ node | .storeNext _ node _
  | .casHead _ node _ => some node
  | _ => none

end CallerPc

def submitStep (env : QueueEnv) (m : Memory) : CallerPc → Memory × CallerPc
  | .idle => (m, if env.submit.valid then .starting env.submit else .idle)
  | .starting cmd =>
    if m.started = false then (m, .idle)
    else
      match cmd with
      | .createTcp .. | .createUdp .. => (m, .numbering cmd)
      | _ => (m, .loadFree cmd)
  | .numbering cmd =>
    ⟨{ m with nextConnId := m.nextConnId + 1 }, .loadFree (cmd.number m.nextConnId)⟩
  -- `AcquireCommand`
  | .loadFree cmd => (m, .tryAcquire cmd m.commandFreeHead)
  | .readNext cmd head => (m, .casFree cmd head (m.next head))
  | .casFree cmd head next =>
    if m.commandFreeHead = some head ∧ env.spurious = false then
      ⟨{ m with commandFreeHead := next }, .clearNext cmd head⟩
    else (m, .tryAcquire cmd m.commandFreeHead)
  | .allocate cmd =>
    if env.alloc then ⟨{ m with allocated := m.allocated + 1 }, .fill cmd m.allocated⟩
    else (m, .idle)
  | .clearNext cmd node => (m.setNext node none, .fill cmd node)
  | .fill cmd node => (m.setCommand node cmd, .loadHead cmd node)
  -- `EnqueueCommand`
  | .loadHead cmd node => (m, .storeNext cmd node m.commandHead)
  | .storeNext cmd node oldHead => (m.setNext node oldHead, .casHead cmd node oldHead)
  | .casHead cmd node oldHead =>
    if m.commandHead = oldHead ∧ env.spurious = false then
      ⟨{ m with commandHead := some node }, .wake cmd⟩
    else (m, .storeNext cmd node m.commandHead)
  | .wake _ => (m, .idle)

/-! ## The polling thread -/

/-- Where the polling thread is in `ProcessCommands`; `cmds` are the nodes it has still to visit. -/
inductive ProcessPc
  | exchange
  | reversing (stack prev : Option ℕ)
  | storing (stack : ℕ) (next prev : Option ℕ)
  | walking (cursor : Option ℕ) (cmds : List ℕ)
  | executing (cmds : List ℕ)
  | clearing (cmd : ℕ) (cmds : List ℕ)
  | loadFree (cmd : ℕ) (cmds : List ℕ)
  | storeFree (cmd : ℕ) (oldHead : Option ℕ) (cmds : List ℕ)
  | casFree (cmd : ℕ) (oldHead : Option ℕ) (cmds : List ℕ)
  deriving DecidableEq

/-- One step of `ProcessCommands`, which returns after the last one. -/
def processStep (env : QueueEnv) (m : Memory) (net : NetWorker) :
    ProcessPc → Memory × NetWorker × Option ProcessPc
  -- `DrainCommands`
  | .exchange => ⟨{ m with commandHead := none }, net, some (.reversing m.commandHead none)⟩
  | .reversing none prev => (m, net, some (.walking prev []))
  | .reversing (some stack) prev => (m, net, some (.storing stack (m.next stack) prev))
  | .storing stack next prev => (m.setNext stack prev, net, some (.reversing next (some stack)))
  | .walking none cmds => (m, net, some (.executing cmds))
  | .walking (some cursor) cmds => (m, net, some (.walking (m.next cursor) (cmds ++ [cursor])))
  | .executing [] => (m, net, none)
  | .executing (cmd :: cmds) =>
    (m, net.handleCommand env.create (m.command cmd), some (.clearing cmd cmds))
  -- `ReleaseCommand`
  | .clearing cmd cmds => (m.setCommand cmd (.close 0), net, some (.loadFree cmd cmds))
  | .loadFree cmd cmds => (m, net, some (.storeFree cmd m.commandFreeHead cmds))
  | .storeFree cmd oldHead cmds => (m.setNext cmd oldHead, net, some (.casFree cmd oldHead cmds))
  | .casFree cmd oldHead cmds =>
    if m.commandFreeHead = oldHead ∧ env.spurious = false then
      ⟨{ m with commandFreeHead := some cmd }, net, some (.executing cmds)⟩
    else (m, net, some (.storeFree cmd m.commandFreeHead cmds))

/-- What `PollOnce` does after `ProcessCommands`. -/
inductive AfterProcess
  | checkTimeouts
  | handle (events : List ReadyEvent)

inductive PollPc
  | idle
  | processing (pc : ProcessPc) (after : AfterProcess)
  | checking
  | waiting
  | handling (events : List ReadyEvent)

def AfterProcess.pc : AfterProcess → PollPc
  | .checkTimeouts => .checking
  | .handle events => .handling events

/-- The polling thread with its connections. -/
structure Poller where
  net : NetWorker
  pc : PollPc := .idle

def pollStep (env : QueueEnv) (m : Memory) (p : Poller) : Memory × Poller :=
  match p.pc with
  | .idle =>
    -- The caller's vector of events is empty.
    if m.started = false then (m, p)
    else ⟨m, { net := { p.net with recvEvents := [] }, pc := .processing .exchange .checkTimeouts }⟩
  | .processing pc after =>
    match processStep env m p.net pc with
    | (m, net, some pc) => (m, { net := net, pc := .processing pc after })
    | (m, net, none) => (m, { net := net, pc := after.pc })
  | .checking =>
    (m, { net := p.net.checkConnectTimeouts env.nowNs env.order, pc := .waiting })
  | .waiting =>
    match env.wait with
    | .ready events => (m, { p with pc := .handling events })
    | _ => (m, { p with pc := .idle })
  | .handling [] =>
    (m, { net := p.net.checkConnectTimeouts env.nowNs env.order, pc := .idle })
  | .handling (ev :: events) =>
    if p.net.wakeFd = some ev.fd then
      (m, { p with pc := .processing .exchange (.handle events) })
    else (m, { net := p.net.dispatch ev, pc := .handling events })

/-! ## The system -/

inductive Party
  | caller (pc : CallerPc)
  | poller (p : Poller)

/-- The state of the callers `ι` and of the polling thread, which is `none`. -/
abbrev QueueConf (ι : Type*) := Conf (Option ι) Memory Party

variable {ι : Type*}

def partyStep (_ : Option ι) (env : QueueEnv) (m : Memory) : Party → Memory × Party
  | .caller pc => ((submitStep env m pc).1, .caller (submitStep env m pc).2)
  | .poller p => ((pollStep env m p).1, .poller (pollStep env m p).2)

/-- After `Start`, with the ids that are given out from then on. -/
def started (net : NetWorker) (nextConnId : ℕ) : QueueConf ι where
  shared := { nextConnId := nextConnId }
  locals
    | none => .poller { net := net }
    | some _ => .caller .idle

/-! ## What a run does -/

/-- A caller obtains an id, or pushes a command; a command is executed, and `missed` says whether it
reported `kConnectionNotFound`; a connection is removed. -/
inductive QueueEvent (ι : Type*)
  | obtained (i : ι) (id : ℕ)
  | pushed (i : ι) (cmd : Command)
  | executed (cmd : Command) (missed : Bool)
  | removed (id : ℕ)
  deriving DecidableEq

namespace NetWorker

/-- The events that were added. -/
def emitted (w w' : NetWorker) : List RecvEvent := w'.recvEvents.drop w.recvEvents.length

/-- The connections that were in the table, or were entered, and are not in the table any more. -/
def removals (entered : Option ℕ) (w w' : NetWorker) : List ℕ :=
  (entered.toList ++ w.connections.keys).filter fun id => id ∉ w'.connections

end NetWorker

def CallerPc.log (i : ι) (env : QueueEnv) (m : Memory) : CallerPc → List (QueueEvent ι)
  | .casHead cmd _ oldHead =>
    if m.commandHead = oldHead ∧ env.spurious = false then [.pushed i cmd] else []
  | .wake cmd => cmd.opens.toList.map (.obtained i)
  | _ => []

/-- The command the next step executes. -/
def ProcessPc.command (m : Memory) : ProcessPc → Option Command
  | .executing (cmd :: _) => some (m.command cmd)
  | _ => none

def PollPc.command (m : Memory) : PollPc → Option Command
  | .processing pc _ => pc.command m
  | _ => none

def Poller.log (env : QueueEnv) (m : Memory) (p : Poller) : List (QueueEvent ι) :=
  let net := (pollStep env m p).2.net
  (p.pc.command m).toList.map (fun cmd =>
      .executed cmd ((p.net.emitted net).any fun ev => ev.error = .connectionNotFound))
    ++ (p.net.removals ((p.pc.command m).bind Command.opens) net).map .removed

def queueLog (c : QueueConf ι) (i : Option ι) (env : QueueEnv) : List (QueueEvent ι) :=
  match i, c.locals i with
  | some i, .caller pc => pc.log i env c.shared
  | none, .poller p => p.log env c.shared
  | _, _ => []

def QueueEvent.submission : QueueEvent ι → Option Command
  | .pushed _ cmd => some cmd
  | _ => none

def QueueEvent.execution : QueueEvent ι → Option Command
  | .executed cmd _ => some cmd
  | _ => none

/-- The commands pushed, in the order of their compare-exchange. -/
def submissions (log : List (QueueEvent ι)) : List Command := log.filterMap QueueEvent.submission

def QueueEvent.submissionOf [DecidableEq ι] (i : ι) : QueueEvent ι → Option Command
  | .pushed j cmd => if j = i then some cmd else none
  | _ => none

/-- The commands pushed by caller `i`. -/
def submissionsOf [DecidableEq ι] (i : ι) (log : List (QueueEvent ι)) : List Command :=
  log.filterMap (QueueEvent.submissionOf i)

/-- The commands executed, in order. -/
def executions (log : List (QueueEvent ι)) : List Command := log.filterMap QueueEvent.execution

end TitanBench
