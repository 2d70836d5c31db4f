import TitanBench.NetworkStream

/-!
# From `Send` to the queue of a connection

A payload waits in the command queue before it is queued on its connection. On the way it may be
lost, with the connection or with the worker, but it is neither changed nor overtaken.

* `Polling.entered` — the payloads a step puts into the command queue for one connection.
* `Polling.underway` — those that are still in it.
* `Polling.step_entered` — what one step does to them.
* `Polling.queued_entered` — what is queued on a connection is, in order, a part of what was entered
  for it.
-/

namespace TitanBench

/-- The payload the command carries to connection `id`. -/
def Command.payloadTo (id : ℕ) : Command → Option Bytes
  | .send k payload => if k = id then some payload else none
  | _ => none

namespace NetWorker

namespace Polling

variable {p : Polling} {s : Step} {id : ℕ}

/-- The payloads the step enters for connection `id`. -/
def entered (id : ℕ) (x : Polling × Step) : List Bytes :=
  match x.2 with
  | .submit cmd sys =>
    ((x.1.net.submit cmd sys).1.commands.drop x.1.net.commands.length).filterMap
      (Command.payloadTo id)
  | _ => []

/-- The payloads for connection `id` that are still to be executed. -/
def underway (id : ℕ) (p : Polling) : List Bytes :=
  (p.taken ++ p.net.commands).filterMap (Command.payloadTo id)

theorem underway_sublist {p' : Polling} (htaken : p'.taken.Sublist p.taken)
    (hqueue : p'.net.commands.Sublist p.net.commands) :
    (p'.underway id).Sublist (p.underway id) :=
  (htaken.append hqueue).filterMap _

theorem underway_submit (p : Polling) (cmd : Command) (sys : SubmitSys) (id : ℕ) :
    (p.step (.submit cmd sys)).underway id
      = p.underway id ++ entered id (p, .submit cmd sys) := by
  obtain ⟨cmds, hcmds, -⟩ := submit_enqueues cmd sys p.net
  have hentered : entered id (p, .submit cmd sys) = cmds.filterMap (Command.payloadTo id) := by
    simp [entered, hcmds]
  rw [hentered]
  show (p.taken ++ (p.net.submit cmd sys).1.commands).filterMap _ = _
  rw [hcmds, ← List.append_assoc, List.filterMap_append]
  rfl

/-- The first command taken is underway no more once it is executed. -/
theorem underway_execute {cmd : Command} {cmds : List Command} (ht : p.taken = cmd :: cmds)
    (create : ℕ → CreateSys) (id : ℕ) :
    p.underway id
      = (cmd.payloadTo id).toList ++ (p.step (.execute create)).underway id := by
  have hqueue := (handleCommand_executes create p.net cmd).sameQueue
  have hrest : (p.step (.execute create)).underway id =
      (cmds ++ p.net.commands).filterMap (Command.payloadTo id) := by
    rw [step_execute_cons ht]
    unfold underway
    rw [hqueue.commands]
  rw [hrest]
  unfold underway
  rw [ht, List.cons_append]
  cases hto : cmd.payloadTo id with
  | none => exact List.filterMap_cons_none hto
  | some payload => exact List.filterMap_cons_some hto

theorem queues_execute {cmd : Command} {cmds : List Command} (ht : p.taken = cmd :: cmds)
    (create : ℕ → CreateSys) (id : ℕ) :
    p.queues id (.execute create) = [] ∨
      cmd.payloadTo id = some (p.queues id (.execute create)) := by
  cases cmd with
  | send k payload =>
    by_cases hk : k = id ∧ id ∈ p.net.connections
    · refine .inr ?_
      simp [queues, executing, ht, Command.payloadTo, hk]
    · refine .inl ?_
      simp [queues, executing, ht, hk]
  | _ => exact .inl (by simp [queues, executing, ht])

/-- **One step.** What it queues on the connection was underway first, and what is underway
afterwards has been underway or is entered. -/
theorem step_entered (p : Polling) (s : Step) (id : ℕ) :
    ∃ done, p.queues id s = done.flatten ∧
      (done ++ (p.step s).underway id).Sublist (p.underway id ++ entered id (p, s)) := by
  have hsame : p.queues id s = [] → ((p.step s).underway id).Sublist (p.underway id) →
      ∃ done, p.queues id s = done.flatten ∧
        (done ++ (p.step s).underway id).Sublist (p.underway id ++ entered id (p, s)) :=
    fun hnone hsub => ⟨[], hnone, hsub.trans (List.sublist_append_left _ _)⟩
  cases s with
  | start sys => exact hsame rfl (underway_sublist (.refl _) (start_queue p.net sys).2)
  | stop => exact hsame rfl (underway_sublist (List.nil_sublist _) (stop_queue p.net).2)
  | submit cmd sys =>
    refine ⟨[], rfl, ?_⟩
    rw [underway_submit]
    exact .refl _
  | clearEvents => exact hsame rfl (.refl _)
  | take =>
    refine hsame rfl ?_
    show ((p.taken ++ p.net.commands) ++ []).filterMap _ |>.Sublist _
    rw [List.append_nil]
    exact .refl _
  | execute create =>
    cases ht : p.taken with
    | nil =>
      refine hsame (queues_of_executing_none (by simp [executing, ht])) ?_
      rw [step_execute_nil ht]
    | cons cmd cmds =>
      have hunder := underway_execute ht create id
      rcases queues_execute ht create id with hnone | hsome
      · refine hsame hnone ?_
        rw [hunder]
        exact List.sublist_append_right _ _
      · refine ⟨[p.queues id (.execute create)], by simp, ?_⟩
        rw [hunder, hsome]
        exact List.sublist_append_left _ _
  | checkConnectTimeouts nowNs order =>
    have hqueue := (churn_checkConnectTimeouts p.net nowNs order).sameQueue
    exact hsame rfl
      (underway_sublist (.refl _) (hqueue.commands.symm ▸ List.Sublist.refl p.net.commands))
  | dispatch ev =>
    have hqueue := (churn_dispatch p.net ev).sameQueue
    exact hsame rfl
      (underway_sublist (.refl _) (hqueue.commands.symm ▸ List.Sublist.refl p.net.commands))

/-- What is queued on a connection in a run, and then what is underway to it, is in order a part of
what was entered for it. -/
theorem queued_entered (steps : List Step) (id : ℕ) :
    ∃ done, queued id (visits {} steps) = done.flatten ∧
      (done ++ (run {} steps).underway id).Sublist ((visits {} steps).flatMap (entered id)) := by
  refine @Mealy.history_invariant _ _ Polling.step (fun p hist => ∃ done,
    queued id hist = done.flatten ∧
      (done ++ p.underway id).Sublist (hist.flatMap (entered id))) (fun _ => True) ?_ {} []
    ⟨[], rfl, .refl _⟩ steps fun _ _ => trivial
  rintro p hist s - ⟨done, hqueued, hsub⟩
  obtain ⟨new, hnew, hstep⟩ := step_entered p s id
  refine ⟨done ++ new, ?_, ?_⟩
  · rw [queued_concat, hqueued, hnew, List.flatten_append]
  · have hlater := hstep.append_left done
    rw [← List.append_assoc done (p.underway id)] at hlater
    rw [List.flatMap_append, List.flatMap_singleton, List.append_assoc]
    exact hlater.trans (hsub.append_right _)

end Polling

end NetWorker

end TitanBench
