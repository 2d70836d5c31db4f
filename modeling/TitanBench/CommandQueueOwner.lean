import TitanBench.CommandQueueMoves

/-!
# The owner of a command node

`AcquireCommand` reads the node behind the head of the free list and then exchanges the head for it.
In between the head may be taken, recycled and put back, and the node it has read may be in use.

* `Current` — the compare-exchanges whose node is still on the free list.
* `Separate` — the free list, the queue and the nodes of the callers have no node in common.
* `one_owner` — the main result.
-/

namespace TitanBench

open Chain Threads

variable {ι : Type*}

/-- If the next step is a compare-exchange of `AcquireCommand` that succeeds, the node that becomes
the head, if there is one, is on the free list behind the node that is taken. -/
def Current (c : QueueConf ι) (i : Option ι) (env : QueueEnv) : Prop :=
  ∀ cmd head next, c.locals i = .caller (.casFree cmd head (some next)) →
    c.shared.commandFreeHead = some head → env.spurious = false →
    Reaches c.shared.next (c.shared.next head) next

/-- The polling thread has stored the head it has read. -/
def ProcessPc.Stored (m : Memory) : ProcessPc → Prop
  | .casFree cmd oldHead _ => m.next cmd = oldHead
  | _ => True

theorem pollStep_stored (env : QueueEnv) (m : Memory) (p : Poller) :
    (pollStep env m p).2.pc.process.Stored (pollStep env m p).1 := by
  rcases pollStep_cases env m p with ⟨q, -, -, hm, hnext⟩ | ⟨-, -, hm, hnext⟩
  · rw [hm, hnext]
    cases q with
    | reversing head prev => cases head <;> trivial
    | walking cursor cmds => cases cursor <;> trivial
    | executing cmds => cases cmds <;> trivial
    | storeFree a old cmds => exact Memory.setNext_next_self _ _ _
    | casFree a old cmds =>
      simp only [processStep]
      split_ifs <;> trivial
    | _ => trivial
  · rw [hm, hnext]
    trivial

/-- The nodes of the queue, those of the free list and those of the callers are different nodes, all
of them allocated. -/
structure Apart (c : QueueConf ι) (nodes free : List ℕ) : Prop where
  linked : Linked c.shared.next c.shared.commandFreeHead free
  disjoint : ∀ a ∈ free, a ∉ nodes
  owned : ∀ i a, (c.locals i).owned = some a → a ∉ nodes ∧ a ∉ free
  callers : ∀ i j a, (c.locals i).owned = some a → (c.locals j).owned = some a → i = j
  queueUsed : ∀ a ∈ nodes, a < c.shared.allocated
  freeUsed : ∀ a ∈ free, a < c.shared.allocated
  ownedUsed : ∀ i a, (c.locals i).owned = some a → a < c.shared.allocated

structure Separate (c : QueueConf ι) : Prop where
  callers : CallersOk c
  poller : ∃ p stack drained free, c.locals none = .poller p ∧
    Queued c.shared p.pc.process stack drained ∧ p.pc.process.Stored c.shared ∧
    Apart c (p.pc.process.queueNodes stack drained) free

theorem separate_started (net : NetWorker) (nextConnId : ℕ) :
    Separate (started net nextConnId : QueueConf ι) := by
  have hnone : ∀ (i : Option ι) (a : ℕ), ((started net nextConnId).locals i).owned ≠ some a := by
    intro i a
    cases i <;> exact fun h => nomatch h
  refine ⟨fun _ => ⟨.idle, rfl, trivial⟩, { net := net }, [], [], [], rfl,
    ⟨rfl, rfl, List.nodup_nil⟩, trivial, rfl, ?_, ?_, ?_, ?_, ?_, ?_⟩
  · exact fun a ha => nomatch ha
  · exact fun i a ha => absurd ha (hnone i a)
  · exact fun i j a ha => absurd ha (hnone i a)
  · exact fun a ha => nomatch ha
  · exact fun a ha => nomatch ha
  · exact fun i a ha => absurd ha (hnone i a)

theorem Separate.oneOwner {c : QueueConf ι} (h : Separate c) : OneOwner c := by
  obtain ⟨p, stack, drained, free, hp, hqueued, -, hapart⟩ := h.poller
  refine ⟨hapart.callers, fun i a ha hfree => ?_, fun i a ha hstack => ?_, fun i j a ha hheld => ?_⟩
  · exact (hapart.owned i a ha).2 (hapart.linked.reaches_iff.mp hfree)
  · exact (hapart.owned i a ha).1 (hqueued.mem_iff.mpr (.inr hstack))
  · cases j with
    | none =>
      rw [hp] at hheld
      exact (hapart.owned i a ha).1 (hqueued.mem_iff.mpr (.inl hheld))
    | some j =>
      obtain ⟨pc, hpc, -⟩ := h.callers j
      rw [hpc] at hheld
      exact hheld

/-! ## Steps -/

/-- A step of caller `i`: what becomes its node was its own, or nobody's and not in use. -/
theorem Apart.caller {c c' : QueueConf ι} {nodes free nodes' free' : List ℕ}
    (h : Apart c nodes free) {i : Option ι} (hlocals : ∀ j, j ≠ i → c'.locals j = c.locals j)
    (hlinked : Linked c'.shared.next c'.shared.commandFreeHead free') (hfree : free' ⊆ free)
    (hnodes : ∀ a ∈ nodes', a ∈ nodes ∨
      (c.locals i).owned = some a ∧ (c'.locals i).owned = none)
    (hle : c.shared.allocated ≤ c'.shared.allocated)
    (hnew : ∀ a, (c'.locals i).owned = some a → (c.locals i).owned = some a ∨
      (∀ j, (c.locals j).owned ≠ some a) ∧ a ∉ nodes ∧ a ∉ free' ∧ a < c'.shared.allocated) :
    Apart c' nodes' free' := by
  -- A caller that owns a node owned it before, or is the one that has just got it.
  have hcases : ∀ j a, (c'.locals j).owned = some a → (c.locals j).owned = some a ∨
      j = i ∧ (∀ k, (c.locals k).owned ≠ some a) ∧ a ∉ nodes ∧ a ∉ free' ∧
        a < c'.shared.allocated := by
    intro j a ha
    by_cases hj : j = i
    · subst hj
      exact (hnew a ha).imp_right fun hn => ⟨rfl, hn⟩
    · rw [hlocals j hj] at ha
      exact .inl ha
  have hpushed : ∀ j a, (c'.locals j).owned = some a → (c.locals j).owned = some a →
      ¬ ((c.locals i).owned = some a ∧ (c'.locals i).owned = none) := by
    rintro j a ha hold ⟨hi, hnone⟩
    have hj := h.callers j i a hold hi
    subst hj
    rw [hnone] at ha
    cases ha
  refine ⟨hlinked, fun a ha hmem => ?_, fun j a ha => ?_, fun j k a hj hk => ?_, fun a ha => ?_,
    fun a ha => ?_, fun j a ha => ?_⟩
  · rcases hnodes a hmem with hold | ⟨hown, -⟩
    · exact h.disjoint a (hfree ha) hold
    · exact (h.owned i a hown).2 (hfree ha)
  · rcases hcases j a ha with hold | ⟨rfl, hno, hout, hfree', -⟩
    · refine ⟨fun hmem => ?_, fun hmem => (h.owned j a hold).2 (hfree hmem)⟩
      rcases hnodes a hmem with hin | hpush
      · exact (h.owned j a hold).1 hin
      · exact hpushed j a ha hold hpush
    · refine ⟨fun hmem => ?_, hfree'⟩
      rcases hnodes a hmem with hin | ⟨hown, -⟩
      · exact hout hin
      · exact hno _ hown
  · rcases hcases j a hj with hold | ⟨rfl, hno, -⟩
    · rcases hcases k a hk with hold' | ⟨rfl, hno', -⟩
      · exact h.callers j k a hold hold'
      · exact absurd hold (hno' j)
    · rcases hcases k a hk with hold' | ⟨rfl, -⟩
      · exact absurd hold' (hno k)
      · rfl
  · rcases hnodes a ha with hold | ⟨hown, -⟩
    · exact (h.queueUsed a hold).trans_le hle
    · exact (h.ownedUsed i a hown).trans_le hle
  · exact (h.freeUsed a (hfree ha)).trans_le hle
  · rcases hcases j a ha with hold | ⟨-, -, -, -, hlt⟩
    · exact (h.ownedUsed j a hold).trans_le hle
    · exact hlt

/-- A step of the polling thread: what it adds to the free list leaves the queue. -/
theorem Apart.polled {c c' : QueueConf ι} {nodes free nodes' free' : List ℕ}
    (h : Apart c nodes free)
    (howned : ∀ j a, (c'.locals j).owned = some a → (c.locals j).owned = some a)
    (hlinked : Linked c'.shared.next c'.shared.commandFreeHead free')
    (hfree : ∀ a ∈ free', a ∈ free ∨ a ∈ nodes ∧ a ∉ nodes') (hnodes : nodes' ⊆ nodes)
    (hused : c'.shared.allocated = c.shared.allocated) : Apart c' nodes' free' := by
  refine ⟨hlinked, fun a ha hmem => ?_, fun j a ha => ⟨fun hmem => ?_, fun hmem => ?_⟩,
    fun j k a hj hk => ?_, fun a ha => ?_, fun a ha => ?_, fun j a ha => ?_⟩
  · rcases hfree a ha with hold | ⟨-, hout⟩
    · exact h.disjoint a hold (hnodes hmem)
    · exact hout hmem
  · exact (h.owned j a (howned j a ha)).1 (hnodes hmem)
  · rcases hfree a hmem with hold | ⟨hin, -⟩
    · exact (h.owned j a (howned j a ha)).2 hold
    · exact (h.owned j a (howned j a ha)).1 hin
  · exact h.callers j k a (howned j a hj) (howned k a hk)
  · exact hused ▸ h.queueUsed a (hnodes ha)
  · rcases hfree a ha with hold | ⟨hin, -⟩
    · exact hused ▸ h.freeUsed a hold
    · exact hused ▸ h.queueUsed a hin
  · exact hused ▸ h.ownedUsed j a (howned j a ha)

/-- What a caller does to the free list: what becomes its node was its own, or has never been used,
or was the head of the list. -/
theorem CallerMove.freed {env : QueueEnv} {m m' : Memory} {pc : CallerPc} {cmds : List Command}
    {after : Option ℕ} (hm : CallerMove env m pc cmds after m') {free : List ℕ}
    (hfree : Linked m.next m.commandFreeHead free) (hapart : ∀ a ∈ free, pc.owned ≠ some a)
    (hcurrent : ∀ cmd head next, pc = .casFree cmd head (some next) →
      m.commandFreeHead = some head → env.spurious = false → Reaches m.next (m.next head) next) :
    ∃ free', Linked m'.next m'.commandFreeHead free' ∧ free' ⊆ free ∧ m.allocated ≤ m'.allocated ∧
      ∀ a, after = some a → pc.owned = some a ∨ (a = m.allocated ∧ a < m'.allocated) ∨
        (a ∈ free ∧ a ∉ free') := by
  have hkeep : m'.commandFreeHead = m.commandFreeHead → Linked m'.next m'.commandFreeHead free := by
    intro hhead
    rw [hhead]
    exact hfree.congr fun a ha => congrArg CommandNode.next (hm.nodes (hapart a ha))
  cases hm with
  | silent _ _ hhead hle =>
    exact ⟨free, hkeep hhead, List.Subset.refl _, hle.ge, fun a ha => .inl ha⟩
  | allocated hown =>
    refine ⟨free, hkeep rfl, List.Subset.refl _, Nat.le_succ _, fun a ha => .inr (.inl ?_)⟩
    cases ha
    exact ⟨rfl, Nat.lt_succ_self _⟩
  | @acquired cmd head next hpc hhead hstrong =>
    rw [hhead] at hfree
    obtain ⟨rest, rfl, hrest⟩ := hfree.eq_cons
    have hout : head ∉ rest := (List.nodup_cons.mp hfree.nodup).1
    obtain ⟨free', hfree', hsub⟩ : ∃ free', Linked m.next next free' ∧ free' ⊆ rest := by
      cases next with
      | none => exact ⟨[], rfl, List.nil_subset _⟩
      | some b =>
        obtain ⟨free', hlinked, hsuffix⟩ := hrest.suffix (hcurrent cmd head b hpc hhead hstrong)
        exact ⟨free', hlinked, hsuffix.subset⟩
    refine ⟨free', hfree', fun a ha => List.mem_cons_of_mem _ (hsub ha), le_rfl, fun a ha => ?_⟩
    cases ha
    exact .inr (.inr ⟨List.mem_cons_self, fun hmem => hout (hsub hmem)⟩)
  | wrote hown _ _ hhead hle =>
    exact ⟨free, hkeep hhead, List.Subset.refl _, hle.ge, fun a ha => .inl (hown.trans ha)⟩
  | pushed hown => exact ⟨free, hkeep rfl, List.Subset.refl _, le_rfl, fun a ha => nomatch ha⟩

/-- What the polling thread does to the free list: it puts a node of the queue in front. -/
theorem PollMove.freed {m m' : Memory} {q : ProcessPc} {nodes nodes' : List ℕ}
    (hm : PollMove m q nodes nodes' m') (hnodup : nodes.Nodup) (hstored : q.Stored m)
    {free : List ℕ} (hfree : Linked m.next m.commandFreeHead free)
    (hsame : ∀ a ∈ free, m'.next a = m.next a) :
    ∃ free', Linked m'.next m'.commandFreeHead free' ∧
      (∀ a ∈ free', a ∈ free ∨ a ∈ nodes ∧ a ∉ nodes') ∧ nodes' ⊆ nodes ∧
      m'.allocated = m.allocated := by
  cases hm with
  | kept hhead hused hsub =>
    refine ⟨free, ?_, fun a ha => .inl ha, hsub, hused⟩
    rw [hhead]
    exact hfree.congr hsame
  | @released cmd old cmds hq hhead hnodes =>
    subst hq hnodes
    have hout := (List.nodup_cons.mp hnodup).1
    refine ⟨cmd :: free, ⟨rfl, ?_⟩, fun a ha => ?_, List.subset_cons_self _ _, rfl⟩
    · have hnext : m.next cmd = m.commandFreeHead := hstored.trans hhead.symm
      exact hnext ▸ hfree
    · rcases List.mem_cons.mp ha with rfl | hold
      · exact .inr ⟨List.mem_cons_self, hout⟩
      · exact .inl hold

variable [DecidableEq ι]

/-- A step of a caller. -/
theorem Separate.caller {c : QueueConf ι} (h : Separate c) {i : ι} {env : QueueEnv}
    (hcurrent : Current c (some i) env) : Separate (c.step partyStep (some i) env) := by
  have hone := h.oneOwner
  obtain ⟨p, stack, drained, free, hp, hqueued, hstored, hapart⟩ := h.poller
  obtain ⟨pc, hpc, hok⟩ := h.callers i
  obtain ⟨hmove, -⟩ := submitStep_move i env hok
  obtain ⟨hshared, hlocal⟩ := step_caller hpc env
  have hown : (c.locals (some i)).owned = pc.owned := by rw [hpc]; rfl
  have hown' : ((c.step partyStep (some i) env).locals (some i)).owned
      = (submitStep env c.shared pc).2.owned := by
    rw [hlocal]
    rfl
  have hnotMem : ∀ a, pc.owned = some a → a ∉ p.pc.process.queueNodes stack drained :=
    fun a ha => hone.notMem hp hqueued (hown.trans ha)
  obtain ⟨stack', hqueued', -, hnodes⟩ := hmove.queued hqueued hnotMem
  obtain ⟨free', hfree', hsub, hle, hnew⟩ := hmove.freed hapart.linked
    (fun a ha hmine => (hapart.owned _ a (hown.trans hmine)).2 ha)
    (fun cmd head next hcas => hcurrent cmd head next (hpc.trans (congrArg Party.caller hcas)))
  have hne : (none : Option ι) ≠ some i := fun heq => nomatch heq
  refine ⟨h.callers.caller hone i env, p, stack', drained, free',
    (Conf.step_local_ne hne env).trans hp, ?_, ?_, ?_⟩
  · rw [hshared]
    exact hqueued'
  · -- The node that is being released is not the caller's.
    rw [hshared]
    cases hq : p.pc.process with
    | casFree a old cmds =>
      have hmem : a ∈ p.pc.process.queueNodes stack drained := by
        rw [hq]
        exact List.mem_cons_self
      rw [hq] at hstored
      have hsame := hmove.nodes (a := a) fun hmine => hnotMem a hmine hmem
      exact (congrArg CommandNode.next hsame).trans hstored
    | _ => trivial
  · refine hapart.caller (i := some i) (fun j hj => Conf.step_local_ne hj env) ?_ hsub ?_ ?_ ?_
    · rw [hshared]
      exact hfree'
    · intro a ha
      rw [hown, hown']
      exact hnodes a ha
    · rw [hshared]
      exact hle
    · intro a ha
      rw [hown, hshared]
      rcases hnew a (hown' ▸ ha) with hmine | ⟨rfl, hlt⟩ | ⟨hin, hout⟩
      · exact .inl hmine
      · refine .inr ⟨fun j hj => ?_, fun hin => ?_, fun hin => ?_, hlt⟩
        · exact lt_irrefl _ (hapart.ownedUsed j _ hj)
        · exact lt_irrefl _ (hapart.queueUsed _ hin)
        · exact lt_irrefl _ (hapart.freeUsed _ (hsub hin))
      · refine .inr ⟨fun j hj => (hapart.owned j a hj).2 hin, hapart.disjoint a hin, hout, ?_⟩
        exact (hapart.freeUsed a hin).trans_le hle

/-- A step of the polling thread. -/
theorem Separate.polled {c : QueueConf ι} (h : Separate c) (env : QueueEnv) :
    Separate (c.step partyStep none env) := by
  have hone := h.oneOwner
  obtain ⟨p, stack, drained, free, hp, hqueued, hstored, hapart⟩ := h.poller
  obtain ⟨hshared, hlocal⟩ := step_poller hp env
  obtain ⟨stack', drained', hqueued', -, hmove⟩ := pollStep_queued env hqueued
  have hlocals : ∀ j a, ((c.step partyStep none env).locals j).owned = some a →
      (c.locals j).owned = some a := by
    intro j a ha
    cases j with
    | none =>
      rw [hlocal] at ha
      cases ha
    | some j =>
      have hne : some j ≠ none := fun heq => nomatch heq
      rwa [Conf.step_local_ne hne] at ha
  have hnext : ∀ a ∈ free, (pollStep env c.shared p).1.next a = c.shared.next a := by
    intro a ha
    refine congrArg CommandNode.next (pollStep_nodes env c.shared p fun hheld => ?_)
    exact hapart.disjoint a ha (hqueued.mem_iff.mpr (.inl hheld))
  obtain ⟨free', hfree', hfreed, hsub, hused⟩ :=
    hmove.freed hqueued.nodup hstored hapart.linked hnext
  have hstored' := pollStep_stored env c.shared p
  rw [← hshared] at hqueued' hstored' hfree' hused
  exact ⟨h.callers.polled hone hp env, _, stack', drained', free', hlocal, hqueued', hstored',
    hapart.polled hlocals hfree' hfreed hsub hused⟩

theorem Separate.step {c : QueueConf ι} (h : Separate c) {i : Option ι} {env : QueueEnv}
    (hcurrent : Current c i env) : Separate (c.step partyStep i env) := by
  cases i with
  | none => exact h.polled env
  | some i => exact h.caller hcurrent

theorem separate_of_reach {net : NetWorker} {nextConnId : ℕ} {c : QueueConf ι}
    (h : Reach partyStep Current (started net nextConnId) c) : Separate c :=
  h.invariant (separate_started net nextConnId) fun _ _ _ _ hcurrent hc => hc.step hcurrent

/-- **A command node has one owner.** In every run in which each compare-exchange of
`AcquireCommand` that succeeds empties the free list, or leaves a node as its head that is still on
it, no node that a caller owns is another caller's, on the free list, on the stack or in the polling
thread's hands. -/
theorem one_owner (net : NetWorker) (nextConnId : ℕ) {c : QueueConf ι}
    (h : Reach partyStep Current (started net nextConnId) c) : OneOwner c :=
  (separate_of_reach h).oneOwner

/-! ## Two callers -/

/-- The pointer that the compare-exchange puts at the head is still the one behind it. -/
def Unchanged (c : QueueConf ι) (i : Option ι) (env : QueueEnv) : Prop :=
  match c.locals i with
  | .caller (.casFree _ head next) =>
    c.shared.commandFreeHead = some head → env.spurious = false → c.shared.next head = next
  | _ => True

instance (c : QueueConf ι) (i : Option ι) (env : QueueEnv) : Decidable (Unchanged c i env) := by
  unfold Unchanged
  split <;> infer_instance

omit [DecidableEq ι] in
theorem Unchanged.current {c : QueueConf ι} {i : Option ι} {env : QueueEnv}
    (h : Unchanged c i env) : Current c i env := by
  intro cmd head next hc hhead hstrong
  unfold Unchanged at h
  rw [hc] at h
  rw [h hhead hstrong]
  exact .here next

inductive TwoCallers
  | first
  | second
  deriving DecidableEq

/-- `steps` steps of a thread; a caller closes connection 1 over and over. -/
def turns (i : Option TwoCallers) (steps : ℕ) : List (Option TwoCallers × QueueEnv) :=
  List.replicate steps (i, { submit := .close 1 })

/-- Two callers and the polling thread, right after `Start`. -/
def begun : QueueConf TwoCallers := started (({} : NetWorker).start {}).1 1

/-- The same after a schedule. -/
def played (schedule : List (Option TwoCallers × QueueEnv)) : QueueConf TwoCallers :=
  begun.run partyStep schedule

/-- The first caller gets the node of its first command back. -/
def reused : List (Option TwoCallers × QueueEnv) :=
  turns (some .first) 9 ++ turns none 16 ++ turns (some .first) 5

theorem one_owner_recycled :
    ((played reused).locals (some .first)).owned = some 0 ∧ OneOwner (played reused) := by
  have hrun : RunOk partyStep Unchanged begun reused := by decide +kernel
  exact ⟨by decide +kernel,
    one_owner _ 1 ((reach_run _ hrun).mono fun _ _ _ hunchanged => hunchanged.current)⟩

/-- The free list is 1, 0. The first caller reads 0 behind 1. The second takes both, pushes 1 and
keeps 0; node 1 is executed and released. The first caller's compare-exchange finds 1 at the head
and puts 0 there. -/
def recycled : List (Option TwoCallers × QueueEnv) :=
  turns (some .first) 18 ++ turns none 24 ++ turns (some .first) 4 ++ turns (some .second) 16
    ++ turns none 16 ++ turns (some .first) 1

theorem node_of_caller_free :
    ¬ ∀ c : QueueConf TwoCallers, Reachable partyStep begun c → ∀ i a,
      (c.locals i).owned = some a → ¬ Reaches c.shared.next c.shared.commandFreeHead a := by
  intro h
  have howned : ((played recycled).locals (some .second)).owned = some 0 := by decide +kernel
  have hhead : (played recycled).shared.commandFreeHead = some 0 := by decide +kernel
  refine h (played recycled) (reachable_run _) (some .second) 0 howned ?_
  rw [hhead]
  exact .here 0

end TitanBench
