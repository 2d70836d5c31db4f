import TitanBench.NetworkSteps

/-!
# Submissions that report an error

A submission checks its arguments, that the worker is started and that a command node can be had,
and then calls `EnqueueCommand`. The engine takes an error of a submission to mean that nothing was
submitted.

**The line** of a worker are the commands that wait, in the order in which they are executed: those
a poll has taken, then the queue. A command keeps its place in the line until it is executed or the
worker stops.

**What is wrong.** `EnqueueCommand` enters the command in the queue before it writes to the wake
descriptor, and reports the failure of the write. The command is then executed by the next poll.

Main result: `submit_error_iff`.
-/

namespace TitanBench

/-- The arguments pass the checks of the call. -/
def Command.Acceptable : Command → Prop
  | .createTcp _ endpoint timeoutMs => endpoint.host ≠ [] ∧ endpoint.port ≠ 0 ∧ 0 < timeoutMs
  | .createUdp _ endpoint => endpoint.host ≠ [] ∧ endpoint.port ≠ 0
  | .send id payload => id ≠ 0 ∧ payload ≠ []
  | .close id => id ≠ 0

instance (cmd : Command) : Decidable cmd.Acceptable := by
  cases cmd <;> unfold Command.Acceptable <;> infer_instance

namespace NetWorker

/-- The error the call reports. -/
def submitErr (cmd : Command) (sys : SubmitSys) (w : NetWorker) : NetErrc :=
  match cmd with
  | .createTcp _ endpoint timeoutMs => (w.createTcpConnection endpoint timeoutMs sys).2.1
  | .createUdp _ endpoint => (w.createUdpConnection endpoint sys).2.1
  | .send id payload => (w.send id payload sys).2
  | .close id => (w.closeConnection id sys).2

/-- The call returns before `EnqueueCommand`. -/
def Refuses (cmd : Command) (sys : SubmitSys) (w : NetWorker) : Prop :=
  ¬ cmd.Acceptable ∨ w.started = false ∨ sys.node = false

/-- `EnqueueCommand` gets to the wake descriptor, and the write to it fails. -/
def WakeFails (cmd : Command) (sys : SubmitSys) (w : NetWorker) : Prop :=
  ¬ w.Refuses cmd sys ∧ w.wakeFd ≠ none ∧ sys.wake = false

/-- A submission enters nothing, or it enters a command and reports whether the write failed. -/
inductive Submitted (cmd : Command) (sys : SubmitSys) (w : NetWorker) :
    List Command → NetErrc → Prop
  | refused : w.Refuses cmd sys → ∀ err, Submitted cmd sys w w.commands err
  | entered : ¬ w.Refuses cmd sys → ∀ c, Submitted cmd sys w (w.commands ++ [c])
      (if w.wakeFd ≠ none ∧ sys.wake = false then .ioFailed else .ok)

theorem not_refuses {cmd : Command} {sys : SubmitSys} {w : NetWorker} (hargs : cmd.Acceptable)
    (hstart : ¬ w.started = false) (hnode : ¬ sys.node = false) : ¬ w.Refuses cmd sys := by
  rintro (h | h | h)
  · exact h hargs
  · exact hstart h
  · exact hnode h

theorem submit_submitted (cmd : Command) (sys : SubmitSys) (w : NetWorker) :
    Submitted cmd sys w (w.submit cmd sys).1.commands (w.submitErr cmd sys) := by
  cases cmd with
  | createTcp id endpoint timeoutMs =>
    have hchecks : endpoint.host = [] ∨ endpoint.port = 0 ∨ timeoutMs ≤ 0 ↔
        ¬ (Command.createTcp id endpoint timeoutMs).Acceptable := by
      simp [Command.Acceptable, or_iff_not_imp_left]
    unfold submit submitErr createTcpConnection
    dsimp only
    split_ifs with hargs hstart hnode
    · exact .refused (.inl (hchecks.mp hargs)) _
    · exact .refused (.inr (.inl hstart)) _
    · exact .refused (.inr (.inr hnode)) _
    · exact .entered (not_refuses (not_not.mp (mt hchecks.mpr hargs)) hstart hnode) _
  | createUdp id endpoint =>
    have hchecks : endpoint.host = [] ∨ endpoint.port = 0 ↔
        ¬ (Command.createUdp id endpoint).Acceptable := by
      simp [Command.Acceptable, or_iff_not_imp_left]
    unfold submit submitErr createUdpConnection
    dsimp only
    split_ifs with hargs hstart hnode
    · exact .refused (.inl (hchecks.mp hargs)) _
    · exact .refused (.inr (.inl hstart)) _
    · exact .refused (.inr (.inr hnode)) _
    · exact .entered (not_refuses (not_not.mp (mt hchecks.mpr hargs)) hstart hnode) _
  | send id payload =>
    have hchecks : id = 0 ∨ payload = [] ↔ ¬ (Command.send id payload).Acceptable := by
      simp [Command.Acceptable, or_iff_not_imp_left]
    unfold submit submitErr NetWorker.send
    dsimp only
    split_ifs with hargs hstart hnode
    · exact .refused (.inl (hchecks.mp hargs)) _
    · exact .refused (.inr (.inl hstart)) _
    · exact .refused (.inr (.inr hnode)) _
    · exact .entered (not_refuses (not_not.mp (mt hchecks.mpr hargs)) hstart hnode) _
  | close id =>
    have hchecks : id = 0 ↔ ¬ (Command.close id).Acceptable := by
      simp [Command.Acceptable]
    unfold submit submitErr closeConnection
    dsimp only
    split_ifs with hargs hstart hnode
    · exact .refused (.inl (hchecks.mp hargs)) _
    · exact .refused (.inr (.inl hstart)) _
    · exact .refused (.inr (.inr hnode)) _
    · exact .entered (not_refuses (not_not.mp (mt hchecks.mpr hargs)) hstart hnode) _

namespace Polling

/-! ## The line -/

/-- The commands that wait, in the order in which they are executed. -/
def line (p : Polling) : List Command := p.taken ++ p.net.commands

/-- The place of the command at place `k` after a step, if it still waits. -/
def place (p : Polling) (s : Step) (k : ℕ) : Option ℕ :=
  match s with
  | .execute _ => if p.taken = [] then some k else if k = 0 then none else some (k - 1)
  | .stop => none
  | .start sys => if k < p.taken.length + (p.net.start sys).1.commands.length then some k else none
  | _ => some k

/-- The command `cmd` at place `k` is executed by one of the steps. -/
def ExecutesAt (cmd : Command) (p : Polling) (k : ℕ) : List Step → Prop
  | [] => False
  | s :: steps => (k = 0 ∧ p.executing s = some cmd) ∨
      ∃ k' ∈ p.place s k, ExecutesAt cmd (p.step s) k' steps

/-- The command that the submission enters, if it enters one, is executed by one of the steps
after it. -/
def Performs (p : Polling) (cmd : Command) (sys : SubmitSys) (after : List Step) : Prop :=
  ∃ c ∈ (p.step (.submit cmd sys)).line[p.line.length]?,
    ExecutesAt c (p.step (.submit cmd sys)) p.line.length after

variable {p : Polling} {k : ℕ} {cmd : Command}

/-- Everything before the command is executed, and then the command. -/
theorem executes_taken (create : ℕ → CreateSys) (hk : p.taken[k]? = some cmd) :
    ExecutesAt cmd p k (p.taken.map fun _ => .execute create) := by
  generalize htaken : p.taken = taken at hk
  induction taken generalizing p k with
  | nil => cases hk
  | cons c cmds ih =>
    cases k with
    | zero =>
      refine .inl ⟨rfl, ?_⟩
      show p.taken.head? = some cmd
      rw [htaken]
      exact hk
    | succ k =>
      refine .inr ⟨k, ?_, ?_⟩
      · show (if p.taken = [] then some (k + 1) else some k) = some k
        rw [htaken]
        rfl
      · rw [step_execute_cons htaken]
        exact ih rfl hk

/-- A command of the queue keeps its place in the queue while what was taken before is executed. -/
theorem executes_after_taken (create : ℕ → CreateSys) {steps : List Step}
    (h : ∀ w, w.commands = p.net.commands → ExecutesAt cmd { net := w } k steps) :
    ExecutesAt cmd p (p.taken.length + k) ((p.taken.map fun _ => .execute create) ++ steps) := by
  generalize htaken : p.taken = taken
  induction taken generalizing p with
  | nil =>
    have hp : p = { net := p.net } := by rw [← htaken]
    rw [List.length_nil, Nat.zero_add, hp]
    exact h p.net rfl
  | cons c cmds ih =>
    refine .inr ⟨cmds.length + k, ?_, ?_⟩
    · have hne : ¬ (c :: cmds).length + k = 0 := by simp
      show (if p.taken = [] then _ else if _ then none else some ((c :: cmds).length + k - 1)) = _
      rw [htaken, if_neg (List.cons_ne_nil c cmds), if_neg hne, List.length_cons]
      congr 1
      omega
    · have hqueue := (handleCommand_executes create p.net c).sameQueue.commands
      rw [step_execute_cons htaken]
      refine ih (fun w hw => h w (hw.trans hqueue)) rfl

/-- The rest of what a poll has taken, and then `ProcessCommands` of the next poll. -/
def nextPoll (create : ℕ → CreateSys) (p : Polling) : List Step :=
  (p.taken.map fun _ => .execute create) ++ .take :: p.net.commands.map fun _ => .execute create

/-- The next poll executes the whole queue. -/
theorem executes_nextPoll (create : ℕ → CreateSys) (hk : p.net.commands[k]? = some cmd) :
    ExecutesAt cmd p (p.taken.length + k) (nextPoll create p) := by
  refine executes_after_taken create fun w hw => .inr ⟨k, rfl, ?_⟩
  rw [← hw] at hk ⊢
  exact @executes_taken { net := { w with commands := [] }, taken := w.commands } k cmd create hk

end Polling

open Polling

/-- **Exactly when a submission that reports an error has no effect.** In every reachable state,
for every submission and whatever the system answers: that the command is never executed after an
error holds if and only if `EnqueueCommand` does not fail to write to the wake descriptor. -/
theorem submit_error_iff (before : List Step) (cmd : Command) (sys : SubmitSys) :
    ((Polling.run {} before).net.submitErr cmd sys ≠ .ok →
        ∀ after, ¬ (Polling.run {} before).Performs cmd sys after) ↔
      ¬ (Polling.run {} before).net.WakeFails cmd sys := by
  generalize Polling.run {} before = p
  have hsubmitted := submit_submitted cmd sys p.net
  have hline : (p.step (.submit cmd sys)).line = p.taken ++ (p.net.submit cmd sys).1.commands := rfl
  constructor
  · rintro hno ⟨henters, hwake⟩
    generalize hcmds : (p.net.submit cmd sys).1.commands = cmds at hsubmitted
    generalize p.net.submitErr cmd sys = err at hsubmitted hno
    cases hsubmitted with
    | refused hrefused _ => exact henters hrefused
    | entered _ c =>
      -- The next poll executes the command all the same.
      rw [if_pos hwake] at hno
      refine hno (by decide) (nextPoll (fun _ => {}) (p.step (.submit cmd sys))) ⟨c, ?_, ?_⟩
      · rw [hline, hcmds, line, ← List.append_assoc]
        exact List.getElem?_concat_length
      · have hk : (p.step (.submit cmd sys)).net.commands[p.net.commands.length]? = some c := by
          rw [step_submit, hcmds]
          exact List.getElem?_concat_length
        have hplace : p.line.length =
            (p.step (.submit cmd sys)).taken.length + p.net.commands.length := List.length_append
        rw [hplace]
        exact executes_nextPoll _ hk
  · rintro hfine herr after ⟨c, hc, -⟩
    rw [hline] at hc
    generalize (p.net.submit cmd sys).1.commands = cmds at hsubmitted hc
    generalize p.net.submitErr cmd sys = err at hsubmitted herr
    cases hsubmitted with
    | refused _ _ => exact absurd hc (by simp [line])
    | entered henters _ =>
      by_cases hwake : p.net.wakeFd ≠ none ∧ sys.wake = false
      · exact hfine ⟨henters, hwake⟩
      · rw [if_neg hwake] at herr
        exact herr rfl

/-- The write to the wake descriptor fails. -/
def wakeFailing : SubmitSys := { wake := false }

/-- `Send` reports the failed write, and the next poll queues the payload for the connection. -/
theorem submit_error_executed :
    ¬ ∀ (before : List Step) (cmd : Command) (sys : SubmitSys),
      (Polling.run {} before).net.submitErr cmd sys ≠ .ok →
        ∀ after, ¬ (Polling.run {} before).Performs cmd sys after := by
  intro hall
  refine hall [.start {}, .submit (.createTcp 0 { host := ascii "h", port := 80 } 3000) {}, .take,
    .execute fun _ => { socketFd := some 5 }] (.send 1 (ascii "abc")) wakeFailing (by decide)
    [.take, .execute fun _ => {}] ⟨.send 1 (ascii "abc"), by decide, ?_⟩
  exact .inr ⟨0, rfl, .inl ⟨rfl, by decide⟩⟩

end NetWorker

end TitanBench
