import TitanBench.CommandQueue

/-!
# What one step does to the command queue

While each node has one owner, the pushed commands are those executed, followed by those drained and
those on the stack.

* `OneOwner` — no node of a caller is another caller's, on a list or in the polling thread's hands.
* `ProcessPc.Drained` — the nodes the polling thread has drained, through the reversal in place.
* `CallerMove`, `PollMove` — what a step does to the memory; `CallerMove.queued` and
  `processStep_queued` keep the order.
* `Ordered.step` — the order of the commands is kept by every step.
-/

namespace TitanBench

open Chain Threads

variable {ι : Type*}

/-! ## Ownership -/

namespace ProcessPc

/-- The polling thread has drained node `a`, and not released it. -/
def Holds (next : ℕ → Option ℕ) : ProcessPc → ℕ → Prop
  | .exchange, _ => False
  | .reversing stack prev, a => Reaches next stack a ∨ Reaches next prev a
  | .storing stack rest prev, a => a = stack ∨ Reaches next rest a ∨ Reaches next prev a
  | .walking cursor cmds, a => a ∈ cmds ∨ Reaches next cursor a
  | .executing cmds, a => a ∈ cmds
  | .clearing cmd cmds, a | .loadFree cmd cmds, a | .storeFree cmd _ cmds, a
  | .casFree cmd _ cmds, a => a = cmd ∨ a ∈ cmds

/-- The node that is executed and not yet released. -/
def released : ProcessPc → Option ℕ
  | .clearing cmd _ | .loadFree cmd _ | .storeFree cmd _ _ | .casFree cmd _ _ => some cmd
  | _ => none

/-- The nodes the polling thread has drained and has still to execute, in the order of their
execution: what is left of the stack comes reversed, before what is reversed already. -/
def Drained (next : ℕ → Option ℕ) : ProcessPc → List ℕ → Prop
  | .exchange, l => l = []
  | .reversing stack prev, l =>
    ∃ rest done, Linked next stack rest ∧ Linked next prev done ∧ l = rest.reverse ++ done
  | .storing stack tail prev, l =>
    ∃ rest done, Linked next tail rest ∧ Linked next prev done ∧ l = rest.reverse ++ stack :: done
  | .walking cursor cmds, l => ∃ rest, Linked next cursor rest ∧ l = cmds ++ rest
  | .executing cmds, l | .clearing _ cmds, l | .loadFree _ cmds, l | .storeFree _ _ cmds, l
  | .casFree _ _ cmds, l => l = cmds

/-- The nodes of the queue, with the one that is being released. -/
def queueNodes (pc : ProcessPc) (stack drained : List ℕ) : List ℕ :=
  pc.released.toList ++ drained ++ stack

variable {next next' : ℕ → Option ℕ} {pc : ProcessPc} {l : List ℕ} {a : ℕ}

theorem Drained.holds_iff (h : pc.Drained next l) :
    pc.Holds next a ↔ pc.released = some a ∨ a ∈ l := by
  cases pc with
  | exchange =>
    subst h
    simp [Holds, released]
  | reversing stack prev =>
    obtain ⟨rest, done, hrest, hdone, rfl⟩ := h
    simp [Holds, released, hrest.reaches_iff, hdone.reaches_iff]
  | storing stack tail prev =>
    obtain ⟨rest, done, hrest, hdone, rfl⟩ := h
    simp only [Holds, released, hrest.reaches_iff, hdone.reaches_iff, List.mem_append,
      List.mem_reverse, List.mem_cons]
    tauto
  | walking cursor cmds =>
    obtain ⟨rest, hrest, rfl⟩ := h
    simp [Holds, released, hrest.reaches_iff]
  | executing cmds =>
    subst h
    simp [Holds, released]
  | clearing cmd cmds | loadFree cmd cmds | storeFree cmd old cmds | casFree cmd old cmds =>
    subst h
    simp [Holds, released, eq_comm]

theorem Drained.congr (h : pc.Drained next l) (hnext : ∀ a ∈ l, next' a = next a) :
    pc.Drained next' l := by
  cases pc with
  | reversing stack prev =>
    obtain ⟨rest, done, hrest, hdone, rfl⟩ := h
    refine ⟨rest, done, hrest.congr fun a ha => hnext a ?_, hdone.congr fun a ha => hnext a ?_, rfl⟩
    · simp [ha]
    · simp [ha]
  | storing stack tail prev =>
    obtain ⟨rest, done, hrest, hdone, rfl⟩ := h
    refine ⟨rest, done, hrest.congr fun a ha => hnext a ?_, hdone.congr fun a ha => hnext a ?_, rfl⟩
    · simp [ha]
    · simp [ha]
  | walking cursor cmds =>
    obtain ⟨rest, hrest, rfl⟩ := h
    exact ⟨rest, hrest.congr fun a ha => hnext a (by simp [ha]), rfl⟩
  | _ => exact h

end ProcessPc

/-- Outside `ProcessCommands` the polling thread holds no more than before the exchange. -/
def PollPc.process : PollPc → ProcessPc
  | .processing pc _ => pc
  | _ => .exchange

/-- The node the party owns as a caller. -/
def Party.owned : Party → Option ℕ
  | .caller pc => pc.owned
  | .poller _ => none

/-- The party holds `a` as the polling thread. -/
def Party.Holds (next : ℕ → Option ℕ) : Party → ℕ → Prop
  | .caller _, _ => False
  | .poller p, a => p.pc.process.Holds next a

/-- Each node of a caller has no other owner. -/
structure OneOwner (c : QueueConf ι) : Prop where
  callers : ∀ i j a, (c.locals i).owned = some a → (c.locals j).owned = some a → i = j
  free : ∀ i a, (c.locals i).owned = some a → ¬ Reaches c.shared.next c.shared.commandFreeHead a
  queue : ∀ i a, (c.locals i).owned = some a → ¬ Reaches c.shared.next c.shared.commandHead a
  poller : ∀ i j a, (c.locals i).owned = some a → ¬ (c.locals j).Holds c.shared.next a

/-! ## The queue -/

/-- The nodes on the stack, newest first, and those drained. -/
structure Queued (m : Memory) (pc : ProcessPc) (stack drained : List ℕ) : Prop where
  linked : Linked m.next m.commandHead stack
  inHand : pc.Drained m.next drained
  nodup : (pc.queueNodes stack drained).Nodup

/-- The commands of the drained nodes and those of the stack, in order. -/
def pending (m : Memory) (stack drained : List ℕ) : List Command :=
  drained.map m.command ++ (stack.map m.command).reverse

theorem pending_congr {m m' : Memory} (h : m'.command = m.command) (stack drained : List ℕ) :
    pending m' stack drained = pending m stack drained := by
  unfold pending
  rw [h]

namespace Queued

variable {m m' : Memory} {pc : ProcessPc} {stack drained : List ℕ}

/-- Only the nodes of the queue matter. -/
theorem congr (h : Queued m pc stack drained) (hhead : m'.commandHead = m.commandHead)
    (hnodes : ∀ a, a ∈ drained ++ stack → m'.nodes a = m.nodes a) :
    Queued m' pc stack drained ∧ pending m' stack drained = pending m stack drained := by
  have hnext : ∀ a, a ∈ drained ++ stack → m'.next a = m.next a := fun a ha =>
    congrArg CommandNode.next (hnodes a ha)
  have hcommand : ∀ a, a ∈ drained ++ stack → m'.command a = m.command a := fun a ha =>
    congrArg CommandNode.command (hnodes a ha)
  refine ⟨⟨?_, ?_, h.nodup⟩, ?_⟩
  · show Linked m'.next m'.commandHead stack
    rw [hhead]
    exact h.linked.congr fun a ha => hnext a (List.mem_append_right _ ha)
  · exact h.inHand.congr fun a ha => hnext a (List.mem_append_left _ ha)
  · unfold pending
    rw [List.map_congr_left fun a ha => hcommand a (List.mem_append_left _ ha),
      List.map_congr_left fun a ha => hcommand a (List.mem_append_right _ ha)]

/-- The node that is being released is not in the queue. -/
theorem ne_released (h : Queued m pc stack drained) {a b : ℕ} (ha : pc.released = some a)
    (hb : b ∈ drained ++ stack) : b ≠ a := by
  rintro rfl
  have hnodup := h.nodup
  rw [ProcessPc.queueNodes, ha, List.append_assoc] at hnodup
  exact (List.nodup_cons.mp hnodup).1 hb

/-- A node is in the queue, or the polling thread holds it. -/
theorem mem_iff (h : Queued m pc stack drained) {a : ℕ} :
    a ∈ pc.queueNodes stack drained ↔ pc.Holds m.next a ∨ Reaches m.next m.commandHead a := by
  rw [h.inHand.holds_iff, h.linked.reaches_iff, ProcessPc.queueNodes, List.mem_append,
    List.mem_append, Option.mem_toList]

end Queued

/-! ## Callers -/

/-- The caller's node holds its command, and the pointer it has stored. -/
def CallerPc.Ok (m : Memory) : CallerPc → Prop
  | .loadHead cmd node | .storeNext cmd node _ => m.command node = cmd
  | .casHead cmd node oldHead => m.command node = cmd ∧ m.next node = oldHead
  | _ => True

/-- What a caller at `pc` does to the memory, with the commands it pushes and the node it owns
after. -/
inductive CallerMove (env : QueueEnv) (m : Memory) (pc : CallerPc) :
    List Command → Option ℕ → Memory → Prop
  | silent {m' : Memory} : m'.nodes = m.nodes → m'.commandHead = m.commandHead →
      m'.commandFreeHead = m.commandFreeHead → m'.allocated = m.allocated →
      CallerMove env m pc [] pc.owned m'
  | allocated : pc.owned = none →
      CallerMove env m pc [] (some m.allocated) { m with allocated := m.allocated + 1 }
  | acquired {cmd : Command} {head : ℕ} {next : Option ℕ} : pc = .casFree cmd head next →
      m.commandFreeHead = some head → env.spurious = false →
      CallerMove env m pc [] (some head) { m with commandFreeHead := next }
  | wrote {node : ℕ} {m' : Memory} : pc.owned = some node →
      (∀ a, a ≠ node → m'.nodes a = m.nodes a) → m'.commandHead = m.commandHead →
      m'.commandFreeHead = m.commandFreeHead → m'.allocated = m.allocated →
      CallerMove env m pc [] (some node) m'
  | pushed {node : ℕ} : pc.owned = some node → m.next node = m.commandHead →
      CallerMove env m pc [m.command node] none { m with commandHead := some node }

theorem CallerPc.owned_tryAcquire (cmd : Command) (head : Option ℕ) :
    (CallerPc.tryAcquire cmd head).owned = none := by
  cases head <;> rfl

theorem CallerPc.ok_tryAcquire (cmd : Command) (head : Option ℕ) (m : Memory) :
    (CallerPc.tryAcquire cmd head).Ok m := by
  cases head <;> trivial

namespace Memory

@[simp] theorem setNext_nodes_ne {a b : ℕ} (h : b ≠ a) (next : Option ℕ) (m : Memory) :
    (m.setNext a next).nodes b = m.nodes b := Function.update_of_ne h _ _

@[simp] theorem setCommand_nodes_ne {a b : ℕ} (h : b ≠ a) (cmd : Command) (m : Memory) :
    (m.setCommand a cmd).nodes b = m.nodes b := Function.update_of_ne h _ _

@[simp] theorem setNext_next_self (a : ℕ) (next : Option ℕ) (m : Memory) :
    (m.setNext a next).next a = next := by
  simp [setNext, Memory.next]

@[simp] theorem setNext_command (a : ℕ) (next : Option ℕ) (m : Memory) :
    (m.setNext a next).command = m.command := by
  funext b
  by_cases hb : b = a
  · subst hb
    simp [setNext, Memory.command]
  · simp [Memory.command, hb]

@[simp] theorem setCommand_command_self (a : ℕ) (cmd : Command) (m : Memory) :
    (m.setCommand a cmd).command a = cmd := by
  simp [setCommand, Memory.command]

end Memory

theorem submitStep_move (i : ι) (env : QueueEnv) {m : Memory} {pc : CallerPc} (hok : pc.Ok m) :
    CallerMove env m pc (submissions (pc.log i env m)) (submitStep env m pc).2.owned
        (submitStep env m pc).1 ∧
      (submitStep env m pc).2.Ok (submitStep env m pc).1 := by
  have hsilent : ∀ {m' : Memory} {pc' : CallerPc}, submissions (pc.log i env m) = [] →
      pc'.owned = pc.owned → m'.nodes = m.nodes → m'.commandHead = m.commandHead →
      m'.commandFreeHead = m.commandFreeHead → m'.allocated = m.allocated →
      CallerMove env m pc (submissions (pc.log i env m)) pc'.owned m' := by
    intro m' pc' hlog howned h₁ h₂ h₃ h₄
    rw [hlog, howned]
    exact .silent h₁ h₂ h₃ h₄
  cases pc with
  | idle =>
    simp only [submitStep]
    split_ifs <;> exact ⟨hsilent rfl rfl rfl rfl rfl rfl, trivial⟩
  | starting cmd =>
    simp only [submitStep]
    split_ifs
    · exact ⟨hsilent rfl rfl rfl rfl rfl rfl, trivial⟩
    · cases cmd <;> exact ⟨hsilent rfl rfl rfl rfl rfl rfl, trivial⟩
  | numbering cmd | readNext cmd head => exact ⟨hsilent rfl rfl rfl rfl rfl rfl, trivial⟩
  | loadFree cmd =>
    exact ⟨hsilent rfl (CallerPc.owned_tryAcquire _ _) rfl rfl rfl rfl,
      CallerPc.ok_tryAcquire _ _ _⟩
  | casFree cmd head next =>
    simp only [submitStep]
    split_ifs with hcas
    · exact ⟨.acquired rfl hcas.1 hcas.2, trivial⟩
    · exact ⟨hsilent rfl (CallerPc.owned_tryAcquire _ _) rfl rfl rfl rfl,
        CallerPc.ok_tryAcquire _ _ _⟩
  | allocate cmd =>
    simp only [submitStep]
    split_ifs
    · exact ⟨.allocated rfl, trivial⟩
    · exact ⟨hsilent rfl rfl rfl rfl rfl rfl, trivial⟩
  | clearNext cmd node =>
    exact ⟨.wrote rfl (fun a ha => Memory.setNext_nodes_ne ha _ _) rfl rfl rfl, trivial⟩
  | fill cmd node =>
    exact ⟨.wrote rfl (fun a ha => Memory.setCommand_nodes_ne ha _ _) rfl rfl rfl,
      Memory.setCommand_command_self _ _ _⟩
  | loadHead cmd node => exact ⟨hsilent rfl rfl rfl rfl rfl rfl, hok⟩
  | storeNext cmd node oldHead =>
    refine ⟨.wrote rfl (fun a ha => Memory.setNext_nodes_ne ha _ _) rfl rfl rfl, ?_, ?_⟩
    · exact (congrFun (Memory.setNext_command _ _ _) _).trans hok
    · exact Memory.setNext_next_self _ _ _
  | casHead cmd node oldHead =>
    obtain ⟨hcmd, hnext⟩ := hok
    simp only [submitStep]
    split_ifs with hcas
    · refine ⟨?_, trivial⟩
      have hlog : submissions (CallerPc.log i env m (.casHead cmd node oldHead))
          = [m.command node] := by
        rw [CallerPc.log, if_pos hcas, hcmd]
        rfl
      rw [hlog]
      exact .pushed rfl (hnext.trans hcas.1.symm)
    · refine ⟨hsilent ?_ rfl rfl rfl rfl rfl, hcmd⟩
      rw [CallerPc.log, if_neg hcas]
      rfl
  | wake cmd =>
    refine ⟨hsilent ?_ rfl rfl rfl rfl rfl, trivial⟩
    simp only [CallerPc.log]
    cases cmd.opens <;> rfl

theorem CallerMove.nodes {env : QueueEnv} {m m' : Memory} {pc : CallerPc} {cmds : List Command}
    {after : Option ℕ} (hm : CallerMove env m pc cmds after m') {a : ℕ} (ha : pc.owned ≠ some a) :
    m'.nodes a = m.nodes a := by
  cases hm with
  | silent hnodes => exact congrFun hnodes a
  | allocated | acquired | pushed => rfl
  | wrote hown hnodes => exact hnodes a fun heq => ha (heq ▸ hown)

/-- A caller keeps the order, and pushes at its end. -/
theorem CallerMove.queued {env : QueueEnv} {m m' : Memory} {pc : CallerPc} {cmds : List Command}
    {after : Option ℕ} (hm : CallerMove env m pc cmds after m') {q : ProcessPc}
    {stack drained : List ℕ} (h : Queued m q stack drained)
    (hapart : ∀ a, pc.owned = some a → a ∉ q.queueNodes stack drained) :
    ∃ stack', Queued m' q stack' drained ∧
      pending m' stack' drained = pending m stack drained ++ cmds ∧
      ∀ a ∈ q.queueNodes stack' drained,
        a ∈ q.queueNodes stack drained ∨ pc.owned = some a ∧ after = none := by
  have hkeep : m'.commandHead = m.commandHead →
      ∃ stack', Queued m' q stack' drained ∧
        pending m' stack' drained = pending m stack drained ++ [] ∧
        ∀ a ∈ q.queueNodes stack' drained,
          a ∈ q.queueNodes stack drained ∨ pc.owned = some a ∧ after = none := by
    intro hhead
    have hnodes : ∀ a, a ∈ drained ++ stack → m'.nodes a = m.nodes a := by
      intro a ha
      refine hm.nodes fun hown => hapart a hown ?_
      rw [ProcessPc.queueNodes, List.append_assoc]
      exact List.mem_append_right _ ha
    obtain ⟨hqueued, hpending⟩ := h.congr hhead hnodes
    rw [List.append_nil]
    exact ⟨stack, hqueued, hpending, fun a ha => .inl ha⟩
  cases hm with
  | silent _ hhead => exact hkeep hhead
  | allocated | acquired => exact hkeep rfl
  | wrote _ _ hhead => exact hkeep hhead
  | @pushed node hown hnext =>
    have hnew := hapart node hown
    have hperm : (q.queueNodes (node :: stack) drained).Perm
        (node :: q.queueNodes stack drained) := List.perm_middle
    refine ⟨node :: stack, ⟨⟨rfl, hnext ▸ h.linked⟩, h.inHand, ?_⟩, ?_, fun a ha => ?_⟩
    · exact hperm.nodup_iff.mpr (List.nodup_cons.mpr ⟨hnew, h.nodup⟩)
    · have hsame : pending { m with commandHead := some node } (node :: stack) drained
          = pending m (node :: stack) drained := pending_congr rfl _ _
      rw [hsame]
      simp [pending]
    · rcases List.mem_cons.mp (hperm.mem_iff.mp ha) with rfl | hold
      · exact .inr ⟨hown, rfl⟩
      · exact .inl hold

/-! ## The polling thread -/

/-- What the polling thread at `q` does to the memory, with the nodes of the queue before and
after. -/
inductive PollMove (m : Memory) (q : ProcessPc) (nodes nodes' : List ℕ) : Memory → Prop
  | kept {m' : Memory} : m'.commandFreeHead = m.commandFreeHead → m'.allocated = m.allocated →
      nodes' ⊆ nodes → PollMove m q nodes nodes' m'
  | released {cmd : ℕ} {oldHead : Option ℕ} {cmds : List ℕ} : q = .casFree cmd oldHead cmds →
      m.commandFreeHead = oldHead → nodes = cmd :: nodes' →
      PollMove m q nodes nodes' { m with commandFreeHead := some cmd }

namespace Queued

variable {m : Memory} {stack drained : List ℕ}

/-- The exchange takes the whole stack. -/
theorem exchanged (h : Queued m .exchange stack []) :
    Queued { m with commandHead := none } (.reversing m.commandHead none) [] stack.reverse ∧
      pending { m with commandHead := none } [] stack.reverse = pending m stack [] := by
  refine ⟨⟨rfl, ⟨stack, [], h.linked, rfl, (List.append_nil _).symm⟩, ?_⟩, ?_⟩
  · show (stack.reverse ++ []).Nodup
    rw [List.append_nil, List.nodup_reverse]
    exact h.nodup
  · have hsame : pending { m with commandHead := none } [] stack.reverse
        = pending m [] stack.reverse := pending_congr rfl _ _
    rw [hsame]
    simp [pending]

/-- A node changes sides in the reversal: the two chains have no node in common, so the write
breaks neither. -/
theorem reversed {a : ℕ} {tail prev : Option ℕ}
    (h : Queued m (.storing a tail prev) stack drained) :
    Queued (m.setNext a prev) (.reversing tail (some a)) stack drained ∧
      pending (m.setNext a prev) stack drained = pending m stack drained := by
  obtain ⟨rest, done, hrest, hdone, rfl⟩ := h.inHand
  have hnodup : (a :: (rest.reverse ++ (done ++ stack))).Nodup := by
    have hn : (rest.reverse ++ a :: done ++ stack).Nodup := h.nodup
    rw [List.append_assoc, List.cons_append, List.nodup_middle] at hn
    exact hn
  have hnext : ∀ b, b ∈ rest.reverse ++ (done ++ stack) →
      (m.setNext a prev).next b = m.next b := by
    intro b hb
    have hne : b ≠ a := fun heq => (List.nodup_cons.mp hnodup).1 (heq ▸ hb)
    exact congrArg CommandNode.next (Memory.setNext_nodes_ne hne _ _)
  refine ⟨⟨?_, ⟨rest, a :: done, ?_, ⟨rfl, ?_⟩, rfl⟩, h.nodup⟩, ?_⟩
  · exact h.linked.congr fun b hb => hnext b (by simp [hb])
  · exact hrest.congr fun b hb => hnext b (by simp [hb])
  · show Linked _ ((m.setNext a prev).next a) done
    rw [Memory.setNext_next_self]
    exact hdone.congr fun b hb => hnext b (by simp [hb])
  · exact pending_congr (Memory.setNext_command a prev m) _ _

end Queued

/-- `ProcessCommands` keeps the order, and executes its first command. -/
theorem processStep_queued (env : QueueEnv) {m : Memory} (net : NetWorker) {q : ProcessPc}
    {stack drained : List ℕ} (h : Queued m q stack drained) :
    ∃ stack' drained', Queued (processStep env m net q).1
        ((processStep env m net q).2.2.getD .exchange) stack' drained' ∧
      (q.command m).toList ++ pending (processStep env m net q).1 stack' drained'
        = pending m stack drained ∧
      PollMove m q (q.queueNodes stack drained)
        (((processStep env m net q).2.2.getD .exchange).queueNodes stack' drained')
        (processStep env m net q).1 := by
  have hdrained := h.inHand
  -- The memory and the nodes stay as they are, and the list of those drained is the same.
  have hmoved : ∀ {q' : ProcessPc} {l : List ℕ}, q'.Drained m.next l → l = drained →
      q'.released = q.released →
      ∃ stack' drained', Queued m q' stack' drained' ∧
        [] ++ pending m stack' drained' = pending m stack drained ∧
        PollMove m q (q.queueNodes stack drained) (q'.queueNodes stack' drained') m := by
    rintro q' l hl rfl hreleased
    have hnodes : q'.queueNodes stack l = q.queueNodes stack l := by
      unfold ProcessPc.queueNodes
      rw [hreleased]
    exact ⟨stack, l, ⟨h.linked, hl, hnodes ▸ h.nodup⟩, rfl, .kept rfl rfl fun a ha => hnodes ▸ ha⟩
  cases q with
  | exchange =>
    cases hdrained
    obtain ⟨hqueued, hpending⟩ := h.exchanged
    refine ⟨[], stack.reverse, hqueued, hpending, .kept rfl rfl ?_⟩
    show stack.reverse ++ [] ⊆ stack
    intro a ha
    simpa using ha
  | reversing head prev =>
    obtain ⟨rest, done, hrest, hdone, rfl⟩ := hdrained
    cases head with
    | none =>
      cases hrest.eq_nil
      exact hmoved ⟨done, hdone, rfl⟩ rfl rfl
    | some a =>
      obtain ⟨rest, rfl, htail⟩ := hrest.eq_cons
      exact hmoved ⟨rest, done, htail, hdone, rfl⟩ (by simp) rfl
  | storing a tail prev =>
    obtain ⟨hqueued, hpending⟩ := h.reversed
    exact ⟨stack, drained, hqueued, hpending, .kept rfl rfl (List.Subset.refl _)⟩
  | walking cursor cmds =>
    obtain ⟨rest, hrest, rfl⟩ := hdrained
    cases cursor with
    | none =>
      cases hrest.eq_nil
      exact hmoved rfl (by simp) rfl
    | some a =>
      obtain ⟨rest, rfl, htail⟩ := hrest.eq_cons
      exact hmoved ⟨rest, htail, rfl⟩ (by simp) rfl
  | executing cmds =>
    cases hdrained
    cases drained with
    | nil => exact hmoved rfl rfl rfl
    | cons a cmds =>
      exact ⟨stack, cmds, ⟨h.linked, rfl, h.nodup⟩, rfl, .kept rfl rfl (List.Subset.refl _)⟩
  | clearing a cmds =>
    cases hdrained
    obtain ⟨hqueued, hpending⟩ : Queued (m.setCommand a (.close 0)) _ stack drained ∧ _ :=
      h.congr rfl fun b hb => Memory.setCommand_nodes_ne (h.ne_released rfl hb) _ _
    exact ⟨stack, drained, ⟨hqueued.linked, rfl, hqueued.nodup⟩, hpending,
      .kept rfl rfl (List.Subset.refl _)⟩
  | loadFree a cmds => exact hmoved hdrained rfl rfl
  | storeFree a old cmds =>
    cases hdrained
    obtain ⟨hqueued, hpending⟩ : Queued (m.setNext a old) _ stack drained ∧ _ :=
      h.congr rfl fun b hb => Memory.setNext_nodes_ne (h.ne_released rfl hb) _ _
    exact ⟨stack, drained, ⟨hqueued.linked, rfl, hqueued.nodup⟩, hpending,
      .kept rfl rfl (List.Subset.refl _)⟩
  | casFree a old cmds =>
    simp only [processStep]
    split_ifs with hcas
    · exact ⟨stack, drained, ⟨h.linked, hdrained, (List.nodup_cons.mp h.nodup).2⟩, rfl,
        .released rfl hcas.1 rfl⟩
    · exact hmoved hdrained rfl rfl

/-- The polling thread writes to the nodes it holds. -/
theorem processStep_nodes (env : QueueEnv) (m : Memory) (net : NetWorker) {pc : ProcessPc} {b : ℕ}
    (hb : ¬ pc.Holds m.next b) : (processStep env m net pc).1.nodes b = m.nodes b := by
  cases pc with
  | reversing head prev => cases head <;> rfl
  | walking cursor cmds => cases cursor <;> rfl
  | executing cmds => cases cmds <;> rfl
  | storing a tail prev => exact Memory.setNext_nodes_ne (fun heq => hb (.inl heq)) _ _
  | clearing a cmds => exact Memory.setCommand_nodes_ne (fun heq => hb (.inl heq)) _ _
  | storeFree a old cmds => exact Memory.setNext_nodes_ne (fun heq => hb (.inl heq)) _ _
  | casFree a old cmds =>
    simp only [processStep]
    split_ifs <;> rfl
  | exchange | loadFree => rfl

/-- A step of `PollOnce`: outside `ProcessCommands` it leaves the memory alone. -/
theorem pollStep_cases (env : QueueEnv) (m : Memory) (p : Poller) :
    (∃ pc, p.pc.process = pc ∧ p.pc.command m = pc.command m ∧
      (pollStep env m p).1 = (processStep env m p.net pc).1 ∧
      (pollStep env m p).2.pc.process = (processStep env m p.net pc).2.2.getD .exchange) ∨
    (p.pc.process = .exchange ∧ p.pc.command m = none ∧ (pollStep env m p).1 = m ∧
      (pollStep env m p).2.pc.process = .exchange) := by
  obtain ⟨net, pc⟩ := p
  cases pc with
  | idle =>
    right
    simp only [pollStep]
    split_ifs <;> exact ⟨rfl, rfl, rfl, rfl⟩
  | processing pc after =>
    left
    refine ⟨pc, rfl, rfl, ?_⟩
    simp only [pollStep]
    obtain ⟨m', net', next⟩ := processStep env m net pc
    cases next with
    | none => cases after <;> exact ⟨rfl, rfl⟩
    | some pc' => exact ⟨rfl, rfl⟩
  | checking => exact .inr ⟨rfl, rfl, rfl, rfl⟩
  | waiting =>
    right
    simp only [pollStep]
    cases env.wait <;> exact ⟨rfl, rfl, rfl, rfl⟩
  | handling events =>
    right
    cases events with
    | nil => exact ⟨rfl, rfl, rfl, rfl⟩
    | cons ev events =>
      simp only [pollStep]
      split_ifs <;> exact ⟨rfl, rfl, rfl, rfl⟩

theorem pollStep_queued (env : QueueEnv) {m : Memory} {p : Poller} {stack drained : List ℕ}
    (h : Queued m p.pc.process stack drained) :
    ∃ stack' drained',
      Queued (pollStep env m p).1 (pollStep env m p).2.pc.process stack' drained' ∧
      (p.pc.command m).toList ++ pending (pollStep env m p).1 stack' drained'
        = pending m stack drained ∧
      PollMove m p.pc.process (p.pc.process.queueNodes stack drained)
        ((pollStep env m p).2.pc.process.queueNodes stack' drained') (pollStep env m p).1 := by
  rcases pollStep_cases env m p with ⟨pc, hpc, hcmd, hm, hnext⟩ | ⟨hpc, hcmd, hm, hnext⟩
  · rw [hcmd, hm, hnext]
    rw [hpc] at h ⊢
    exact processStep_queued env p.net h
  · rw [hcmd, hm, hnext]
    rw [hpc] at h ⊢
    exact ⟨stack, drained, h, rfl, .kept rfl rfl (List.Subset.refl _)⟩

theorem pollStep_nodes (env : QueueEnv) (m : Memory) (p : Poller) {b : ℕ}
    (hb : ¬ p.pc.process.Holds m.next b) : (pollStep env m p).1.nodes b = m.nodes b := by
  rcases pollStep_cases env m p with ⟨pc, hpc, -, hm, -⟩ | ⟨-, -, hm, -⟩
  · rw [hm]
    exact processStep_nodes env m p.net (hpc ▸ hb)
  · rw [hm]

/-! ## Runs -/

theorem CallerPc.Ok.congr {m m' : Memory} {pc : CallerPc} (h : pc.Ok m)
    (hnodes : ∀ a, pc.owned = some a → m'.nodes a = m.nodes a) : pc.Ok m' := by
  cases pc with
  | loadHead cmd node | storeNext cmd node oldHead =>
    exact (congrArg CommandNode.command (hnodes node rfl)).trans h
  | casHead cmd node oldHead =>
    exact ⟨(congrArg CommandNode.command (hnodes node rfl)).trans h.1,
      (congrArg CommandNode.next (hnodes node rfl)).trans h.2⟩
  | _ => trivial

def CallersOk (c : QueueConf ι) : Prop :=
  ∀ i, ∃ pc, c.locals (some i) = .caller pc ∧ pc.Ok c.shared

/-- The executed commands and those pending are the ones submitted. -/
structure Ordered (c : QueueConf ι) (log : List (QueueEvent ι)) : Prop where
  callers : CallersOk c
  poller : ∃ p stack drained, c.locals none = .poller p ∧
    Queued c.shared p.pc.process stack drained ∧
    executions log ++ pending c.shared stack drained = submissions log

theorem submissions_append (log log' : List (QueueEvent ι)) :
    submissions (log ++ log') = submissions log ++ submissions log' := List.filterMap_append

theorem executions_append (log log' : List (QueueEvent ι)) :
    executions (log ++ log') = executions log ++ executions log' := List.filterMap_append

theorem submissionsOf_sublist [DecidableEq ι] (i : ι) (log : List (QueueEvent ι)) :
    (submissionsOf i log).Sublist (submissions log) := by
  induction log with
  | nil => exact .slnil
  | cons e log ih =>
    cases e with
    | pushed j cmd =>
      by_cases hj : j = i
      · have hcons : submissionsOf i (.pushed j cmd :: log) = cmd :: submissionsOf i log := by
          simp [submissionsOf, QueueEvent.submissionOf, hj]
        rw [hcons]
        exact ih.cons_cons cmd
      · have hskip : submissionsOf i (.pushed j cmd :: log) = submissionsOf i log := by
          simp [submissionsOf, QueueEvent.submissionOf, hj]
        rw [hskip]
        exact ih.cons cmd
    | _ => exact ih

theorem executions_caller (i : ι) (env : QueueEnv) (m : Memory) (pc : CallerPc) :
    executions (pc.log i env m) = [] := by
  cases pc with
  | casHead cmd node oldHead =>
    simp only [CallerPc.log]
    split_ifs <;> rfl
  | wake cmd =>
    simp only [CallerPc.log]
    cases cmd.opens <;> rfl
  | _ => rfl

theorem submissions_poller (env : QueueEnv) (m : Memory) (p : Poller) :
    submissions (p.log env m : List (QueueEvent ι)) = [] := by
  unfold Poller.log submissions
  rw [List.filterMap_append, List.filterMap_map, List.filterMap_map]
  simp [Function.comp_def, QueueEvent.submission]

theorem executions_poller (env : QueueEnv) (m : Memory) (p : Poller) :
    executions (p.log env m : List (QueueEvent ι)) = (p.pc.command m).toList := by
  unfold Poller.log executions
  rw [List.filterMap_append, List.filterMap_map, List.filterMap_map]
  simp [Function.comp_def, QueueEvent.execution]

theorem ordered_started (net : NetWorker) (nextConnId : ℕ) :
    Ordered (started net nextConnId : QueueConf ι) [] :=
  ⟨fun _ => ⟨.idle, rfl, trivial⟩,
    ⟨{ net := net }, [], [], rfl, ⟨rfl, rfl, List.nodup_nil⟩, rfl⟩⟩

section Step

variable {c : QueueConf ι} {i : ι} {pc : CallerPc} {p : Poller}

/-- The caller's node is not in the queue. -/
theorem OneOwner.notMem (hone : OneOwner c)
    (hp : c.locals none = .poller p) {stack drained : List ℕ}
    (hqueued : Queued c.shared p.pc.process stack drained) {j : Option ι} {a : ℕ}
    (ha : (c.locals j).owned = some a) : a ∉ p.pc.process.queueNodes stack drained := by
  intro hmem
  rcases hqueued.mem_iff.mp hmem with hheld | hstack
  · refine hone.poller j none a ha ?_
    rw [hp]
    exact hheld
  · exact hone.queue _ a ha hstack

theorem queueLog_caller (h : c.locals (some i) = .caller pc) (env : QueueEnv) :
    queueLog c (some i) env = pc.log i env c.shared := by
  unfold queueLog
  rw [h]

theorem queueLog_poller (h : c.locals none = .poller p) (env : QueueEnv) :
    queueLog c none env = p.log env c.shared := by
  unfold queueLog
  rw [h]

variable [DecidableEq ι]

theorem step_caller (h : c.locals (some i) = .caller pc) (env : QueueEnv) :
    (c.step partyStep (some i) env).shared = (submitStep env c.shared pc).1 ∧
      (c.step partyStep (some i) env).locals (some i) = .caller (submitStep env c.shared pc).2 := by
  rw [Conf.step_shared, Conf.step_local_self, h]
  exact ⟨rfl, rfl⟩

theorem step_poller (h : c.locals none = .poller p) (env : QueueEnv) :
    (c.step partyStep none env).shared = (pollStep env c.shared p).1 ∧
      (c.step partyStep none env).locals none = .poller (pollStep env c.shared p).2 := by
  rw [Conf.step_shared, Conf.step_local_self, h]
  exact ⟨rfl, rfl⟩

end Step

variable [DecidableEq ι]

theorem CallersOk.caller {c : QueueConf ι} (h : CallersOk c) (hone : OneOwner c) (i : ι)
    (env : QueueEnv) : CallersOk (c.step partyStep (some i) env) := by
  intro j
  obtain ⟨pc, hpc, hok⟩ := h i
  obtain ⟨hmove, hok'⟩ := submitStep_move i env hok
  obtain ⟨hshared, hlocal⟩ := step_caller hpc env
  rw [hshared]
  by_cases hj : j = i
  · subst hj
    exact ⟨_, hlocal, hok'⟩
  · obtain ⟨pc', hpc', hok''⟩ := h j
    have hne : some j ≠ some i := fun heq => hj (Option.some.inj heq)
    refine ⟨pc', (Conf.step_local_ne hne env).trans hpc', hok''.congr fun a ha => ?_⟩
    refine hmove.nodes fun hown => hne ?_
    exact hone.callers _ _ a (by rw [hpc']; exact ha) (by rw [hpc]; exact hown)

theorem CallersOk.polled {c : QueueConf ι} (h : CallersOk c) (hone : OneOwner c) {p : Poller}
    (hp : c.locals none = .poller p) (env : QueueEnv) :
    CallersOk (c.step partyStep none env) := by
  intro j
  obtain ⟨pc, hpc, hok⟩ := h j
  have hne : some j ≠ none := fun heq => nomatch heq
  rw [(step_poller hp env).1]
  refine ⟨pc, (Conf.step_local_ne hne env).trans hpc, hok.congr fun a ha => ?_⟩
  refine pollStep_nodes env c.shared p fun hheld => ?_
  refine hone.poller (some j) none a (by rw [hpc]; exact ha) ?_
  rw [hp]
  exact hheld

/-- A step of a caller. -/
theorem Ordered.caller {c : QueueConf ι} {log : List (QueueEvent ι)} (h : Ordered c log)
    (hone : OneOwner c) (i : ι) (env : QueueEnv) :
    Ordered (c.step partyStep (some i) env) (log ++ queueLog c (some i) env) := by
  obtain ⟨pc, hpc, hok⟩ := h.callers i
  obtain ⟨p, stack, drained, hp, hqueued, horder⟩ := h.poller
  obtain ⟨hmove, -⟩ := submitStep_move i env hok
  have hapart : ∀ a, pc.owned = some a → a ∉ p.pc.process.queueNodes stack drained :=
    fun a ha => hone.notMem (j := some i) hp hqueued (by rw [hpc]; exact ha)
  obtain ⟨stack', hqueued', hpending, -⟩ := hmove.queued hqueued hapart
  have hne : (none : Option ι) ≠ some i := fun heq => nomatch heq
  refine ⟨h.callers.caller hone i env, ?_⟩
  rw [(step_caller hpc env).1]
  refine ⟨p, stack', drained, (Conf.step_local_ne hne env).trans hp, hqueued', ?_⟩
  rw [queueLog_caller hpc, executions_append, submissions_append, executions_caller,
    List.append_nil, hpending, ← List.append_assoc, horder]

/-- A step of the polling thread. -/
theorem Ordered.polled {c : QueueConf ι} {log : List (QueueEvent ι)} (h : Ordered c log)
    (hone : OneOwner c) (env : QueueEnv) :
    Ordered (c.step partyStep none env) (log ++ queueLog c none env) := by
  obtain ⟨p, stack, drained, hp, hqueued, horder⟩ := h.poller
  obtain ⟨hshared, hlocal⟩ := step_poller hp env
  obtain ⟨stack', drained', hqueued', hpending, -⟩ := pollStep_queued env hqueued
  refine ⟨h.callers.polled hone hp env, ?_⟩
  rw [hshared]
  refine ⟨_, stack', drained', hlocal, hqueued', ?_⟩
  rw [queueLog_poller hp, executions_append, submissions_append, submissions_poller,
    executions_poller, List.append_nil, List.append_assoc, hpending]
  exact horder

theorem Ordered.step {c : QueueConf ι} {log : List (QueueEvent ι)} (h : Ordered c log)
    (hone : OneOwner c) (i : Option ι) (env : QueueEnv) :
    Ordered (c.step partyStep i env) (log ++ queueLog c i env) := by
  cases i with
  | none => exact h.polled hone env
  | some i => exact h.caller hone i env

end TitanBench
