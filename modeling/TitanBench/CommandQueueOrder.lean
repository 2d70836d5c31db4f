import TitanBench.CommandQueueOwner

/-!
# The commands are executed once each, in order

* `Informed` — what a caller that has obtained an id may rely on.
* `OwnedRun` — the runs in which no node has two owners.
* `commands_in_order` — the main result.
-/

namespace TitanBench

open Chain Threads

variable {ι : Type*} [DecidableEq ι]

/-! ## Removed connections -/

theorem NetWorker.mem_removals {entered : Option ℕ} {w w' : NetWorker} {id : ℕ} :
    id ∈ w.removals entered w' ↔
      (entered = some id ∨ id ∈ w.connections) ∧ id ∉ w'.connections := by
  unfold NetWorker.removals
  rw [List.mem_filter, List.mem_append, decide_eq_true_iff, Option.mem_toList]
  rfl

omit [DecidableEq ι] in
theorem Poller.removed_iff {env : QueueEnv} {m : Memory} {p : Poller} {id : ℕ} :
    .removed id ∈ (p.log env m : List (QueueEvent ι)) ↔
      ((∃ cmd, p.pc.command m = some cmd ∧ cmd.opens = some id) ∨ id ∈ p.net.connections) ∧
        id ∉ (pollStep env m p).2.net.connections := by
  unfold Poller.log
  rw [List.mem_append, List.mem_map, List.mem_map]
  simp only [NetWorker.mem_removals, Option.bind_eq_some_iff, reduceCtorEq, and_false, exists_false,
    false_or, QueueEvent.removed.injEq, exists_eq_right]

/-- What the step of an executed command does to the connections. -/
theorem pollStep_command {env : QueueEnv} {m : Memory} {p : Poller} {cmd : Command}
    (h : p.pc.command m = some cmd) :
    (pollStep env m p).2.net = p.net.handleCommand env.create cmd := by
  obtain ⟨net, pc⟩ := p
  cases pc with
  | processing pc after =>
    cases pc with
    | executing cmds =>
      cases cmds with
      | nil => cases h
      | cons a cmds =>
        cases h
        rfl
    | _ => cases h
  | _ => cases h

/-- A send that reports `kConnectionNotFound` found no connection. -/
theorem not_mem_of_missed {env : QueueEnv} {m : Memory} {p : Poller} {id : ℕ} {payload : Bytes}
    (h : p.pc.command m = some (.send id payload))
    (hmissed : (p.net.emitted (pollStep env m p).2.net).any
      (fun ev => ev.error = .connectionNotFound) = true) : id ∉ p.net.connections := by
  rw [pollStep_command h] at hmissed
  intro hmem
  obtain ⟨conn, hl⟩ := Option.isSome_iff_exists.mp (AList.lookup_isSome.mpr hmem)
  have hevents : (p.net.handleSend id payload).recvEvents = p.net.recvEvents := by
    unfold NetWorker.handleSend
    rw [hl]
    dsimp only
    split_ifs
    · rfl
    · cases conn.fd <;> rfl
  have hnone : p.net.emitted (p.net.handleSend id payload) = [] := by
    unfold NetWorker.emitted
    rw [hevents, List.drop_length]
  rw [NetWorker.handleCommand, hnone] at hmissed
  cases hmissed

omit [DecidableEq ι] in
theorem Poller.obtained_notMem {env : QueueEnv} {m : Memory} {p : Poller} {i : ι} {id : ℕ} :
    .obtained i id ∉ p.log env m := by
  unfold Poller.log
  simp

omit [DecidableEq ι] in
theorem CallerPc.obtained_mem {env : QueueEnv} {m : Memory} {pc : CallerPc} {i j : ι} {id : ℕ}
    (h : .obtained i id ∈ pc.log j env m) : ∃ cmd, pc = .wake cmd ∧ cmd.opens = some id := by
  cases pc with
  | casHead cmd node oldHead =>
    simp only [CallerPc.log] at h
    split_ifs at h <;> simp at h
  | wake cmd =>
    simp only [CallerPc.log, List.mem_map, Option.mem_toList] at h
    obtain ⟨id', hid, heq⟩ := h
    cases heq
    exact ⟨cmd, rfl, hid⟩
  | _ => cases h

omit [DecidableEq ι] in
/-- The command that is executed comes first in the log of its step. -/
theorem Poller.log_executed {env : QueueEnv} {m : Memory} {p : Poller} {cmd : Command}
    {missed : Bool} {before after : List (QueueEvent ι)}
    (h : p.log env m = before ++ .executed cmd missed :: after) :
    before = [] ∧ p.pc.command m = some cmd ∧
      (p.net.emitted (pollStep env m p).2.net).any
        (fun ev => ev.error = .connectionNotFound) = missed := by
  have hnone : ∀ {ids : List ℕ} {l : List (QueueEvent ι)},
      ids.map QueueEvent.removed ≠ l ++ .executed cmd missed :: after := by
    intro ids l heq
    have hmem : .executed cmd missed ∈ (ids.map .removed : List (QueueEvent ι)) := by
      rw [heq]
      exact List.mem_append_right _ List.mem_cons_self
    simp at hmem
  unfold Poller.log at h
  cases hc : p.pc.command m with
  | none =>
    rw [hc] at h
    exact absurd h hnone
  | some cmd' =>
    rw [hc] at h
    cases before with
    | nil =>
      cases List.cons.inj h |>.1
      exact ⟨rfl, rfl, rfl⟩
    | cons x before => exact absurd (List.cons.inj h).2 hnone

/-- Whoever sends on a connection it has obtained finds it, unless it is removed. -/
structure Informed (c : QueueConf ι) (log : List (QueueEvent ι)) : Prop where
  poller : ∃ p, c.locals none = .poller p ∧ ∀ cmd ∈ executions log, ∀ id, cmd.opens = some id →
    id ∈ p.net.connections ∨ .removed id ∈ log
  callers : ∀ i, ∃ pc, c.locals (some i) = .caller pc ∧
    ∀ cmd, pc = .wake cmd → cmd ∈ submissions log

omit [DecidableEq ι] in
theorem submitStep_wake {i : ι} {env : QueueEnv} {m : Memory} {pc : CallerPc} {cmd : Command}
    (h : (submitStep env m pc).2 = .wake cmd) : cmd ∈ submissions (pc.log i env m) := by
  have htry : ∀ (cmd' : Command) (head : Option ℕ), CallerPc.tryAcquire cmd' head ≠ .wake cmd := by
    intro cmd' head
    cases head <;> exact fun h => nomatch h
  cases pc with
  | idle =>
    simp only [submitStep] at h
    split_ifs at h
  | starting cmd' =>
    simp only [submitStep] at h
    split_ifs at h
    cases cmd' <;> cases h
  | loadFree cmd' => exact absurd h (htry _ _)
  | casFree cmd' head next =>
    simp only [submitStep] at h
    split_ifs at h
    exact absurd h (htry _ _)
  | allocate cmd' =>
    simp only [submitStep] at h
    split_ifs at h
  | casHead cmd' node oldHead =>
    simp only [submitStep] at h
    split_ifs at h with hcas
    cases h
    rw [CallerPc.log, if_pos hcas]
    exact List.mem_singleton.mpr rfl
  | numbering | readNext | clearNext | fill | loadHead | storeNext | wake => cases h

theorem Logged.informed {ok : QueueConf ι → Option ι → QueueEnv → Prop} {net : NetWorker}
    {nextConnId : ℕ} {c : QueueConf ι} {log : List (QueueEvent ι)}
    (h : Logged partyStep queueLog ok (started net nextConnId) c log) : Informed c log := by
  induction h with
  | init =>
    exact ⟨⟨_, rfl, fun _ hcmd => nomatch hcmd⟩, fun _ => ⟨_, rfl, fun _ hpc => nomatch hpc⟩⟩
  | @step c log i env hc hok ih =>
    obtain ⟨⟨p, hp, hknown⟩, hcallers⟩ := ih
    have hwaking : ∀ j, some j ≠ i → ∃ pc, (c.step partyStep i env).locals (some j) = .caller pc ∧
        ∀ cmd, pc = .wake cmd → cmd ∈ submissions (log ++ queueLog c i env) := by
      intro j hj
      obtain ⟨pc, hpc, hwake⟩ := hcallers j
      refine ⟨pc, (Conf.step_local_ne hj env).trans hpc, fun cmd hcmd => ?_⟩
      rw [submissions_append]
      exact List.mem_append_left _ (hwake cmd hcmd)
    cases i with
    | none =>
      obtain ⟨-, hlocal⟩ := step_poller hp env
      refine ⟨⟨_, hlocal, fun cmd hcmd id hid => ?_⟩, fun j => hwaking j fun heq => nomatch heq⟩
      by_cases hin : id ∈ (pollStep env c.shared p).2.net.connections
      · exact .inl hin
      · right
        rw [queueLog_poller hp, executions_append, executions_poller] at hcmd
        rw [queueLog_poller hp, List.mem_append, Poller.removed_iff]
        rcases List.mem_append.mp hcmd with hold | hnew
        · rcases hknown cmd hold id hid with hmem | hremoved
          · exact .inr ⟨.inr hmem, hin⟩
          · exact .inl hremoved
        · exact .inr ⟨.inl ⟨cmd, Option.mem_toList.mp hnew, hid⟩, hin⟩
    | some i =>
      obtain ⟨pc, hpc, -⟩ := hcallers i
      obtain ⟨-, hlocal⟩ := step_caller hpc env
      have hne : (none : Option ι) ≠ some i := fun heq => nomatch heq
      refine ⟨⟨p, (Conf.step_local_ne hne env).trans hp, fun cmd hcmd id hid => ?_⟩, fun j => ?_⟩
      · rw [queueLog_caller hpc, executions_append, executions_caller, List.append_nil] at hcmd
        exact (hknown cmd hcmd id hid).imp_right (List.mem_append_left _)
      · by_cases hj : j = i
        · subst hj
          refine ⟨_, hlocal, fun cmd hcmd => ?_⟩
          rw [queueLog_caller hpc, submissions_append]
          exact List.mem_append_right _ (submitStep_wake hcmd)
        · exact hwaking j fun heq => hj (Option.some.inj heq)

section Order

variable {net : NetWorker} {nextConnId : ℕ} {c : QueueConf ι} {log : List (QueueEvent ι)}

/-- The runs in all of whose states each node has one owner. -/
abbrev OwnedRun (net : NetWorker) (nextConnId : ℕ) (c : QueueConf ι) (log : List (QueueEvent ι)) :
    Prop :=
  Logged partyStep queueLog (fun c _ _ => OneOwner c) (started net nextConnId) c log

/-- The runs in which no exchange puts a node in use on the free list are among them. -/
theorem ownedRun_of_current (h : Logged partyStep queueLog Current (started net nextConnId) c log) :
    OwnedRun net nextConnId c log :=
  h.mono fun _ _ _ hc _ => (separate_of_reach hc).oneOwner

theorem OwnedRun.ordered (h : OwnedRun net nextConnId c log) : Ordered c log := by
  induction h with
  | init => exact ordered_started net nextConnId
  | step i env hc hone ih => exact ih.step hone i env

/-- An id that was obtained belongs to a connection whose command was pushed before. -/
theorem OwnedRun.obtained (h : OwnedRun net nextConnId c log) {before after : List (QueueEvent ι)}
    {i : ι} {id : ℕ} (hlog : log = before ++ .obtained i id :: after) :
    ∃ cmd ∈ submissions before, cmd.opens = some id := by
  obtain ⟨c', log', j, env, before', after', hc, -, hobs, rfl⟩ := h.split hlog
  obtain ⟨⟨p, hp, -⟩, hcallers⟩ := Logged.informed hc
  have hmem : .obtained i id ∈ queueLog c' j env := by
    rw [hobs]
    exact List.mem_append_right _ List.mem_cons_self
  cases j with
  | none =>
    rw [queueLog_poller hp] at hmem
    exact absurd hmem Poller.obtained_notMem
  | some j =>
    obtain ⟨pc, hpc, hwake⟩ := hcallers j
    rw [queueLog_caller hpc] at hmem
    obtain ⟨cmd, hcmd, hid⟩ := CallerPc.obtained_mem hmem
    rw [submissions_append]
    exact ⟨cmd, List.mem_append_left _ (hwake cmd hcmd), hid⟩

/-- A send that reports `kConnectionNotFound`, and the state it is executed in. -/
theorem OwnedRun.missed (h : OwnedRun net nextConnId c log) {before after : List (QueueEvent ι)}
    {id : ℕ} {payload : Bytes} (hlog : log = before ++ .executed (.send id payload) true :: after) :
    ∃ c' p, OwnedRun net nextConnId c' before ∧ c'.locals none = .poller p ∧
      id ∉ p.net.connections := by
  obtain ⟨c', log', j, env, before', after', hc, -, hobs, rfl⟩ := h.split hlog
  obtain ⟨⟨p, hp, -⟩, hcallers⟩ := Logged.informed hc
  cases j with
  | none =>
    rw [queueLog_poller hp] at hobs
    obtain ⟨rfl, hcmd, hmissed⟩ := Poller.log_executed hobs
    refine ⟨c', p, by rwa [List.append_nil], hp, not_mem_of_missed hcmd hmissed⟩
  | some j =>
    obtain ⟨pc, hpc, -⟩ := hcallers j
    have hexec := executions_caller j env c'.shared pc
    rw [← queueLog_caller hpc, hobs, executions_append] at hexec
    exact absurd hexec (by simp [executions, QueueEvent.execution])

/-- **The commands are executed once each, in the order they were pushed.** In every run in all of
whose states each node has one owner: the commands executed so far, those drained and those on the
stack, oldest first, are the commands pushed, in the order of their compare-exchange; so the
commands of each caller keep their order. A send that was pushed by the caller that obtained the
id, and executed in its turn, reports `kConnectionNotFound` only if the connection was removed
before. -/
theorem commands_in_order (h : OwnedRun net nextConnId c log) :
    (∃ p stack drained, c.locals none = .poller p ∧
      Linked c.shared.next c.shared.commandHead stack ∧
      p.pc.process.Drained c.shared.next drained ∧
      executions log ++ drained.map c.shared.command ++ (stack.map c.shared.command).reverse
        = submissions log ∧
      ∀ i, (submissionsOf i log).Sublist
        (executions log ++ drained.map c.shared.command
          ++ (stack.map c.shared.command).reverse)) ∧
    ∀ before between after i id payload,
      log = before ++ .pushed i (.send id payload) :: between
        ++ .executed (.send id payload) true :: after →
      (submissions before).length
        = (executions (before ++ .pushed i (.send id payload) :: between)).length →
      .obtained i id ∈ before →
      .removed id ∈ before ++ .pushed i (.send id payload) :: between := by
  constructor
  · obtain ⟨p, stack, drained, hp, hqueued, horder⟩ := h.ordered.poller
    have hsame : executions log ++ drained.map c.shared.command
        ++ (stack.map c.shared.command).reverse = submissions log := by
      rw [List.append_assoc]
      exact horder
    refine ⟨p, stack, drained, hp, hqueued.linked, hqueued.inHand, hsame, fun i => ?_⟩
    rw [hsame]
    exact submissionsOf_sublist i log
  · intro before between after i id payload hlog hlength hobtained
    obtain ⟨c', p, hc, hp, hmem⟩ := h.missed hlog
    -- The executed commands are those pushed before this one.
    obtain ⟨-, stack, drained, -, -, horder⟩ := hc.ordered.poller
    have hexecuted : executions (before ++ .pushed i (.send id payload) :: between)
        = submissions before := by
      have hprefix := congrArg (List.take (submissions before).length) horder
      rw [submissions_append, List.take_left, hlength, List.take_left] at hprefix
      exact hprefix
    -- So is the command that opens the connection.
    obtain ⟨before', between', rfl⟩ := List.append_of_mem hobtained
    obtain ⟨cmd, hcmd, hid⟩ := hc.obtained (by rw [List.append_assoc, List.cons_append])
    have hcmd' : cmd ∈ executions (before' ++ .obtained i id :: between'
        ++ .pushed i (.send id payload) :: between) := by
      rw [hexecuted, submissions_append]
      exact List.mem_append_left _ hcmd
    obtain ⟨⟨p', hp', hknown⟩, -⟩ := Logged.informed hc
    rw [hp] at hp'
    cases hp'
    exact (hknown cmd hcmd' id hid).resolve_left hmem

end Order

/-! ## A connection that does not come about -/

/-- The first caller opens a connection and sends on it; both commands are executed, and the address
does not resolve. -/
def unresolved : List (Option TwoCallers × QueueEnv) :=
  List.replicate 10 (some .first, { submit := .createTcp 0 { host := [104], port := 80 } 1000 })
    ++ List.replicate 9 (some .first, { submit := .send 1 [71] })
    ++ List.replicate 24 (none, { create := fun _ => { resolved := false } })

def unresolvedLog : List (QueueEvent TwoCallers) :=
  begun.log partyStep queueLog unresolved

theorem commands_in_order_unresolved :
    submissionsOf .first unresolvedLog
        = [.createTcp 1 { host := [104], port := 80 } 1000, .send 1 [71]] ∧
      (∃ drained stack, executions unresolvedLog ++ drained ++ stack = submissions unresolvedLog) ∧
      .removed 1 ∈ unresolvedLog.take 5 := by
  have hrun : RunOk partyStep Unchanged begun unresolved := by decide +kernel
  have howned : OwnedRun (({} : NetWorker).start {}).1 1 (played unresolved) unresolvedLog := by
    refine ownedRun_of_current ((logged_run _ hrun).mono fun _ _ _ _ hunchanged => ?_)
    exact hunchanged.current
  obtain ⟨⟨_, _, _, -, -, -, hsame, -⟩, hmissed⟩ := commands_in_order howned
  refine ⟨by decide +kernel, ⟨_, _, hsame⟩, ?_⟩
  have hlog : unresolvedLog = unresolvedLog.take 2 ++ .pushed .first (.send 1 [71])
      :: (unresolvedLog.take 5).drop 3 ++ .executed (.send 1 [71]) true :: [] := by
    decide +kernel
  have htake : unresolvedLog.take 5 = unresolvedLog.take 2 ++ .pushed .first (.send 1 [71])
      :: (unresolvedLog.take 5).drop 3 := by
    decide +kernel
  rw [htake]
  exact hmissed _ _ _ .first 1 [71] hlog (by decide +kernel) (by decide +kernel)

end TitanBench
