import TitanBench.EngineOverrun
import TitanBench.EngineReturn
import TitanBench.Lib.Pacing
import TitanBench.RateToken

/-!
# The rate of the requests

Every thread waits for the rate token before it sends. The token spaces the slots of the threads,
not the calls of `Send`: a thread may be late for its slot, and a thread that read the clock long
ago may even be granted a slot in the past.

**The log** (`paces`). It holds the clock readings for the token, the slots and the calls of `Send`
or `PerformHttpGet`, each with the time of its step.

* `RateCtl.Step` — what a step of a worker does about the token.
* `PacedRun.rateRun` — the threads of a run are callers of `WaitRateToken`, so the slots are spaced.
* `requests_paced` — the main result: how many requests are sent in a window of time.
-/

namespace TitanBench

open Threads

open Pacing (Entry What)

variable {n : ℕ}

/-! ## One step -/

/-- Where a thread is about the rate token: it waits for it, it has it and is about to send, or
neither. -/
inductive RateCtl
  | away
  | asks (pc : RatePc)
  | sends

namespace RateCtl

def pc : RateCtl → Option RatePc
  | .asks pc => some pc
  | _ => none

/-- The thread is in a phase that agrees with where it is. -/
def Agrees : RateCtl → Pacing.Phase → Prop
  | .asks (.load now), p | .asks (.cas now _), p => p = .asking now
  | .sends, p => ∃ slot, p = .holding slot
  | _, _ => True

/-- What a step at time `nowNs` makes of the token, where the thread goes, and what it notes. -/
inductive Step (intervalNs nowNs : ℤ) (spurious : Bool) (token : ℤ) :
    RateCtl → ℤ → RateCtl → Option What → Prop
  | reads : Step intervalNs nowNs spurious token (.asks .readClock) token (.asks (.load nowNs))
      (some .read)
  | loads (now : ℤ) : Step intervalNs nowNs spurious token (.asks (.load now)) token
      (.asks (.cas now token)) none
  | fails {now old : ℤ} : spurious = true ∨ token ≠ old →
      Step intervalNs nowNs spurious token (.asks (.cas now old)) token (.asks .readClock) none
  | grants {now old : ℤ} : ¬ (spurious = true ∨ token ≠ old) →
      Step intervalNs nowNs spurious token (.asks (.cas now old)) (max old now + intervalNs) .sends
        (some (.grant (max old now)))
  | acts : Step intervalNs nowNs spurious token .sends token .away (some .act)
  | loses : Step intervalNs nowNs spurious token .sends token .away none
  | enters : Step intervalNs nowNs spurious token .away token (.asks .readClock) none
  | stays : Step intervalNs nowNs spurious token .away token .away none

section Agrees

variable {intervalNs nowNs token token' : ℤ} {spurious : Bool} {rate rate' : RateCtl} {what : What}
  {p : Pacing.Phase}

/-- A step that notes something goes on to the next phase. -/
theorem Step.agrees (h : Step intervalNs nowNs spurious token rate token' rate' (some what))
    (hp : rate.Agrees p) : ∃ q, Pacing.Phase.Next nowNs p what q ∧ rate'.Agrees q := by
  cases h with
  | reads => exact ⟨_, .read p, rfl⟩
  | grants =>
    obtain rfl : p = .asking _ := hp
    exact ⟨_, .grant (le_max_right _ _), _, rfl⟩
  | acts =>
    obtain ⟨slot, rfl⟩ := hp
    exact ⟨_, .act slot, trivial⟩

/-- A step that notes nothing keeps the phase. -/
theorem Step.agrees_none (h : Step intervalNs nowNs spurious token rate token' rate' none)
    (hp : rate.Agrees p) : rate'.Agrees p := by
  cases h with
  | loads now => exact hp
  | fails | loses | enters | stays => trivial

end Agrees

end RateCtl

/-- What the next step of a call of `WaitRateToken` notes. -/
def RatePc.notes (env : Env) (token : ℤ) : RatePc → Option What
  | .readClock => some .read
  | .load _ => none
  | .cas now old => if env.spurious = true ∨ token ≠ old then none else some (.grant (max old now))

def EventCtl.rate : EventCtl → RateCtl
  | .waiting _ pc _ _ => .asks pc
  | .sending .. => .sends
  | _ => .away

def SlotCtl.rate : SlotCtl → RateCtl
  | .waiting pc => .asks pc
  | .performing => .sends
  | _ => .away

namespace Body

def rate : Body → RateCtl
  | .main _ => .away
  | .event w => w.ctl.rate
  | .slot s => s.ctl.rate

/-- What the next step of the thread's own code notes about the token and the requests. -/
def notes (env : Env) (token : ℤ) : Body → Option What
  | .main _ => none
  | .event w =>
    match w.ctl with
    | .waiting _ pc _ _ => pc.notes env token
    | .sending id _ _ => if (w.sessions.lookup id).isSome then some .act else none
    | _ => none
  | .slot s =>
    match s.ctl with
    | .waiting pc => pc.notes env token
    | .performing => some .act
    | _ => none

/-- The next step issues a request. -/
def acts (env : Env) (token : ℤ) (body : Body) : ℕ :=
  if body.notes env token = some .act then 1 else 0

end Body

/-- A thread notes nothing while it has operations left. -/
def Thread.notes (env : Env) (token : ℤ) (t : Thread) : Option What :=
  if t.ops = [] then t.body.notes env token else none

section Step

variable {cfg : Config} {env : Env} {sh : Shared n} {i : Fin n}

theorem Config.rateIntervalNs_pos (cfg : Config) : 0 < cfg.rateIntervalNs :=
  zero_lt_one.trans_le (le_max_left _ _)

theorem RatePc.notes_ne_act (env : Env) (token : ℤ) (pc : RatePc) :
    pc.notes env token ≠ some .act := by
  cases pc with
  | cas now old =>
    simp only [notes]
    split_ifs <;> simp
  | _ => simp [notes]

theorem EventWorker.Opens.notes {w : EventWorker} {next : EventCtl} (h : Opens w.ctl next)
    (env : Env) (token : ℤ) : w.ctl.rate = .away ∧ (Body.event w).notes env token = none := by
  simp only [Body.notes]
  generalize w.ctl = ctl at h
  cases h <;> exact ⟨rfl, rfl⟩

/-- A step of `WaitRateToken` with the interval of a run. -/
theorem rateStep_rate (hpos : 0 < cfg.rateIntervalNs) (token : ℤ) (pc : RatePc) :
    RateCtl.Step cfg.rateIntervalNs env.nowNs env.spurious token (.asks pc)
      (rateStep cfg.rateIntervalNs env.nowNs env.spurious token pc).1
      (match (rateStep cfg.rateIntervalNs env.nowNs env.spurious token pc).2 with
        | some pc => .asks pc
        | none => .sends) (pc.notes env token) := by
  cases pc with
  | readClock =>
    rw [rateStep, if_neg hpos.not_ge]
    exact .reads
  | load now => exact .loads now
  | cas now old =>
    simp only [rateStep, RatePc.notes]
    split_ifs with hfail
    · exact .fails hfail
    · exact .grants hfail

theorem eventStep_rate (w : EventWorker) :
    RateCtl.Step cfg.rateIntervalNs env.nowNs env.spurious sh.nextTokenNs w.ctl.rate
      (eventStep cfg i env sh w).1.nextTokenNs (eventStep cfg i env sh w).2.2.ctl.rate
      ((Body.event w).notes env sh.nextTokenNs) := by
  by_cases hwait : ∃ id pc now todo, w.ctl = .waiting id pc now todo
  · obtain ⟨id, pc, now, todo, hc⟩ := hwait
    have hrate := @rateStep_rate cfg env cfg.rateIntervalNs_pos sh.nextTokenNs pc
    simp only [eventStep, Body.notes, hc, EventCtl.rate]
    revert hrate
    generalize rateStep cfg.rateIntervalNs env.nowNs env.spurious sh.nextTokenNs pc = r
    rcases r with ⟨token, _ | pc'⟩ <;> exact fun h => h
  · have hm := EventWorker.eventStep_move cfg i env sh w
    generalize eventStep cfg i env sh w = r at hm
    cases hm with
    | waits token hc | waited token hc => exact absurd ⟨_, _, _, _, hc⟩ hwait
    | granted hc => simpa [Body.notes, hc, EventCtl.rate] using .enters
    | sent hc hs | requested hc hs | sendFailed hc hs =>
      simpa [Body.notes, hc, hs, EventCtl.rate] using .acts
    | goes hg =>
      cases hg with
      | gone hc hs => simpa [Body.notes, hc, hs, EventCtl.rate, EventWorker.goto] using .loses
      | enter hc | sweep _ _ hc | swept hc | skip hc | pick hc | handled hc | unknown hc
      | stay hc =>
        simpa [Body.notes, hc, EventCtl.rate, EventWorker.goto] using .stays
    | opened session hopens =>
      rw [(hopens.notes env sh.nextTokenNs).1, (hopens.notes env sh.nextTokenNs).2]
      rcases hopens.next with ⟨left, rfl⟩ | ⟨events, rfl⟩ <;> exact .stays
    | notOpened hopens =>
      rw [(hopens.notes env sh.nextTokenNs).1, (hopens.notes env sh.nextTokenNs).2]
      exact .stays
    | stopped hc | started hc | notStarted hc | acquires hc | refused hc | polled hc
    | pollFailed hc | errored hc | received hc | retried hc | givenUp hc | closed hc
    | returned hc =>
      simpa [Body.notes, hc, EventCtl.rate, EventWorker.goto, EventWorker.closeAll] using .stays

theorem slotStep_rate (s : Slot) :
    RateCtl.Step cfg.rateIntervalNs env.nowNs env.spurious sh.nextTokenNs s.ctl.rate
      (slotStep cfg i env sh s).1.nextTokenNs (slotStep cfg i env sh s).2.2.ctl.rate
      ((Body.slot s).notes env sh.nextTokenNs) := by
  by_cases hwait : ∃ pc, s.ctl = .waiting pc
  · obtain ⟨pc, hc⟩ := hwait
    have hrate := @rateStep_rate cfg env cfg.rateIntervalNs_pos sh.nextTokenNs pc
    simp only [slotStep, Body.notes, hc, SlotCtl.rate]
    revert hrate
    generalize rateStep cfg.rateIntervalNs env.nowNs env.spurious sh.nextTokenNs pc = r
    rcases r with ⟨token, _ | pc'⟩ <;> exact fun h => h
  · have hm := Slot.slotStep_move cfg i env sh s
    generalize slotStep cfg i env sh s = r at hm
    cases hm with
    | waits token hc | waited token hc => exact absurd ⟨_, hc⟩ hwait
    | granted hc => simpa [Body.notes, hc, SlotCtl.rate] using .enters
    | performed _ _ _ _ _ hc => simpa [Body.notes, hc, SlotCtl.rate] using .acts
    | goes hg =>
      cases hg with
      | stopped hc | enter hc | stay hc =>
        simpa [Body.notes, hc, SlotCtl.rate, Slot.goto] using .stays
    | started _ hc | notStarted _ hc | connected _ hc | retried _ hc | gaveUp _ hc | acquires hc
    | refused hc | returned hc =>
      simpa [Body.notes, hc, SlotCtl.rate, Slot.goto] using .stays

/-- What an event-driven worker counts. -/
theorem eventStep_acts (w : EventWorker) : (eventStep cfg i env sh w).2.2.sends
    = w.sends + (Body.event w).acts env sh.nextTokenNs := by
  have hm := EventWorker.eventStep_move cfg i env sh w
  generalize eventStep cfg i env sh w = r at hm
  unfold Body.acts
  cases hm with
  | waits token hc | waited token hc =>
    simp [Body.notes, hc, RatePc.notes_ne_act, EventWorker.goto]
  | goes hg =>
    cases hg with
    | gone hc hs => simp [Body.notes, hc, hs, EventWorker.goto]
    | enter hc | sweep _ _ hc | swept hc | skip hc | pick hc | handled hc | unknown hc | stay hc =>
      simp [Body.notes, hc, EventWorker.goto]
  | opened session hopens => simp [hopens.notes env sh.nextTokenNs]
  | notOpened hopens => simp [hopens.notes env sh.nextTokenNs]
  | sent hc hs | requested hc hs | sendFailed hc hs => simp [Body.notes, hc, hs]
  | granted hc | stopped hc | started hc | notStarted hc | acquires hc | refused hc | polled hc
  | pollFailed hc | errored hc | received hc | retried hc | givenUp hc | closed hc
  | returned hc => simp [Body.notes, hc, EventWorker.goto, EventWorker.closeAll]

/-- What a slot counts. -/
theorem slotStep_acts (s : Slot) : (slotStep cfg i env sh s).2.2.sends
    = s.sends + (Body.slot s).acts env sh.nextTokenNs := by
  have hm := Slot.slotStep_move cfg i env sh s
  generalize slotStep cfg i env sh s = r at hm
  unfold Body.acts
  cases hm with
  | waits token hc | waited token hc =>
    simp [Body.notes, hc, RatePc.notes_ne_act, Slot.goto]
  | performed _ _ _ _ _ hc => simp [Body.notes, hc]
  | goes hg =>
    cases hg with
    | stopped hc | enter hc | stay hc => simp [Body.notes, hc, Slot.goto]
  | started _ hc | notStarted _ hc | connected _ hc | retried _ hc | gaveUp _ hc | acquires hc
  | refused hc | granted hc | returned hc => simp [Body.notes, hc, Slot.goto]

theorem Op.Exec.token {rest : List Op} {i : Option (Fin n)} {op : Op} {r : Shared n × List Op}
    (h : op.Exec sh rest i r) : r.1.nextTokenNs = sh.nextTokenNs := by
  cases h <;> rfl

end Step

/-! ## Runs -/

namespace Engine

/-- What a step of thread `i` notes. -/
def paces (c : Conf n) (i : Option (Fin n)) (env : Env) : List (Entry (Fin n)) :=
  match i with
  | some i =>
    ((c.locals (some i)).notes env c.shared.nextTokenNs).toList.map fun what =>
      ⟨i, env.nowNs, what⟩
  | none => []

variable {cfg : Config} {beginNs : ℕ} {c : Conf cfg.threadCount}
  {log : List (Entry (Fin cfg.threadCount))}

/-- The runs of `cfg` with the log. -/
abbrev PacedRun (cfg : Config) (beginNs : ℕ) (c : Conf cfg.threadCount)
    (log : List (Entry (Fin cfg.threadCount))) : Prop :=
  Logged (step cfg) paces (fun _ _ _ => True) (init cfg beginNs) c log

/-- What a step of any thread does about the token: it leaves the token, the threads and the log
alone, or it is a step of a worker. -/
theorem step_rate (c : Conf cfg.threadCount) (i : Option (Fin cfg.threadCount)) (env : Env) :
    ((c.step (step cfg) i env).shared.nextTokenNs = c.shared.nextTokenNs ∧
      (∀ j, ((c.step (step cfg) i env).locals (some j)).body.rate = (c.locals (some j)).body.rate) ∧
      paces c i env = []) ∨
    ∃ k what, i = some k ∧
      RateCtl.Step cfg.rateIntervalNs env.nowNs env.spurious c.shared.nextTokenNs
        (c.locals (some k)).body.rate (c.step (step cfg) i env).shared.nextTokenNs
        ((c.step (step cfg) i env).locals (some k)).body.rate what ∧
      paces c i env = what.toList.map fun what => ⟨k, env.nowNs, what⟩ := by
  have hlocals : ∀ j, ((c.step (step cfg) i env).locals (some j)).body
      = if some j = i then (step cfg i env c.shared (c.locals i)).2.body
        else (c.locals (some j)).body := by
    intro j
    split_ifs with hj
    · rw [← hj, Conf.step_local_self]
    · rw [Conf.step_local_ne hj]
  simp only [hlocals, Conf.step_shared, paces]
  cases i with
  | none =>
    refine .inl ⟨?_, fun j => by simp, rfl⟩
    have hm := step_move cfg none env c.shared (c.locals none)
    generalize hr : step cfg none env c.shared (c.locals none) = r at hm
    generalize ht : c.locals none = t at hm
    cases hm with
    | op body hx => exact hx.token
    | main hr' => rw [hr', mainStep_token]
    | stay => rfl
  | some k =>
    rcases ht : c.locals (some k) with ⟨ops, body⟩
    cases ops with
    | cons op rest =>
      refine .inl ⟨(execOp_exec (some k) op rest c.shared).token, fun j => ?_,
        by simp [Thread.notes, ht]⟩
      split_ifs with hj
      · rw [hj, ht]
        rfl
      · rfl
    | nil =>
      refine .inr ⟨k, body.notes env c.shared.nextTokenNs, rfl, ?_, by simp [Thread.notes, ht]⟩
      rw [if_pos rfl, ht]
      cases body with
      | main m => exact .stays
      | event w => exact eventStep_rate w
      | slot s => exact slotStep_rate s

/-! ## The slots -/

/-- The threads of the engine as callers of `WaitRateToken`. -/
def rateView (c : Conf n) : Threads.Conf (Fin n) ℤ (Option RatePc) where
  shared := c.shared.nextTokenNs
  locals i := (c.locals (some i)).body.rate.pc

theorem rateView_init (cfg : Config) (beginNs : ℕ) :
    rateView (init cfg beginNs) = rateCallers (Fin cfg.threadCount) beginNs := by
  refine congrArg _ (funext fun i => ?_)
  show (initialBody cfg i).rate.pc = none
  unfold initialBody
  split_ifs <;> rfl

/-- **The engine uses the token as its callers do.** The slots in the log of a run are the slots
that the callers of `WaitRateToken` are granted in a run of theirs. -/
theorem PacedRun.rateRun (h : PacedRun cfg beginNs c log) :
    ∃ granted, RateRun cfg.rateIntervalNs beginNs (rateView c) granted ∧
      granted.map Grant.slotNs = log.filterMap Entry.slot := by
  refine h.invariant (I := fun c log => ∃ granted,
    RateRun cfg.rateIntervalNs beginNs (rateView c) granted ∧
      granted.map Grant.slotNs = log.filterMap Entry.slot) ⟨[], ?_, rfl⟩ ?_
  · rw [rateView_init]
    exact .init
  intro c log i env _ _ ⟨granted, hrun, hslots⟩
  have hlog : ∀ entries : List (Entry (Fin cfg.threadCount)), entries.filterMap Entry.slot = [] →
      granted.map Grant.slotNs = (log ++ entries).filterMap Entry.slot := by
    intro entries hnone
    rw [List.filterMap_append, hnone, List.append_nil, hslots]
  rcases step_rate c i env with ⟨htoken, hrates, hnone⟩ | ⟨k, what, rfl, hstep, hnotes⟩
  · refine ⟨granted, ?_, by rw [hnone]; exact hlog [] rfl⟩
    have hview : rateView (c.step (step cfg) i env) = rateView c := by
      simp only [rateView, htoken, hrates]
    rwa [hview]
  -- the callers' step, unless the thread is not in a call
  have hview : rateView (c.step (step cfg) (some k) env) =
      ⟨(c.step (step cfg) (some k) env).shared.nextTokenNs,
        Function.update (rateView c).locals k
          ((c.step (step cfg) (some k) env).locals (some k)).body.rate.pc⟩ := by
    refine congrArg _ (funext fun j => ?_)
    by_cases hj : j = k
    · subst hj
      rw [Function.update_self]
    · rw [Function.update_of_ne hj]
      have hne : some j ≠ some k := fun heq => hj (Option.some.inj heq)
      rw [Conf.step_local_ne hne]
      rfl
  have hlocal : (rateView c).locals k = (c.locals (some k)).body.rate.pc := rfl
  have hshared : (rateView c).shared = c.shared.nextTokenNs := rfl
  generalize (c.step (step cfg) (some k) env).shared.nextTokenNs = token' at hstep hview
  generalize ((c.step (step cfg) (some k) env).locals (some k)).body.rate = rate' at hstep hview
  generalize (c.locals (some k)).body.rate = rate at hstep hlocal
  rw [hview, hnotes]
  have hsame : rate'.pc = rate.pc → token' = (rateView c).shared →
      (⟨token', Function.update (rateView c).locals k rate'.pc⟩ :
        Threads.Conf (Fin cfg.threadCount) ℤ (Option RatePc)) = rateView c := by
    intro hpc htoken
    rw [hpc, htoken, ← hlocal, Function.update_eq_self]
  have hcalls : rateCaller cfg.rateIntervalNs k (env.nowNs, env.spurious) (rateView c).shared
      ((rateView c).locals k) = (token', rate'.pc) →
      RateRun cfg.rateIntervalNs beginNs ⟨token', Function.update (rateView c).locals k rate'.pc⟩
        (granted ++ grants (rateView c) k (env.nowNs, env.spurious)) := by
    intro hcall
    have hnext := hrun.step k ((env.nowNs : ℤ), env.spurious) trivial
    simp only [Conf.step, hcall] at hnext
    exact hnext
  cases hstep with
  | reads =>
    refine ⟨_, hcalls ?_, ?_⟩
    · rw [hlocal]
      simp [RateCtl.pc, rateCaller, rateStep, cfg.rateIntervalNs_pos.not_ge, hshared]
    · simpa [grants, hlocal, RateCtl.pc] using hlog [_] rfl
  | loads now =>
    refine ⟨_, hcalls ?_, ?_⟩
    · rw [hlocal]
      simp [RateCtl.pc, rateCaller, rateStep, hshared]
    · simpa [grants, hlocal, RateCtl.pc] using hlog [] rfl
  | @fails now old hfail =>
    refine ⟨_, hcalls ?_, ?_⟩
    · rw [hlocal]
      simp only [RateCtl.pc, rateCaller, rateStep, hshared]
      rw [if_pos hfail]
    · simp only [grants, hlocal, RateCtl.pc, hshared]
      rw [if_pos hfail]
      simpa using hlog [] rfl
  | @grants now old hexchange =>
    refine ⟨_, hcalls ?_, ?_⟩
    · rw [hlocal]
      simp only [RateCtl.pc, rateCaller, rateStep, hshared]
      rw [if_neg hexchange]
    · simp only [grants, hlocal, RateCtl.pc, hshared]
      rw [if_neg hexchange, List.map_append, hslots, List.filterMap_append]
      rfl
  | acts => exact ⟨granted, by rw [hsame rfl rfl]; exact hrun, hlog [_] rfl⟩
  | loses => exact ⟨granted, by rw [hsame rfl rfl]; exact hrun, hlog [] rfl⟩
  | stays => exact ⟨granted, by rw [hsame rfl rfl]; exact hrun, hlog [] rfl⟩
  | enters =>
    refine ⟨_, hcalls ?_, ?_⟩
    · rw [hlocal]
      simp [RateCtl.pc, rateCaller, hshared]
    · simpa [grants, hlocal, RateCtl.pc] using hlog [] rfl

/-- The slots of a run are an interval apart, and none is before the begin of the run. -/
theorem PacedRun.slots_apart (h : PacedRun cfg beginNs c log) :
    ((log.filterMap Entry.slot).Pairwise fun s s' => s + cfg.rateIntervalNs ≤ s') ∧
      ∀ s ∈ log.filterMap Entry.slot, (beginNs : ℤ) ≤ s := by
  obtain ⟨granted, hrun, hslots⟩ := h.rateRun
  rw [← hslots, (rate_token hrun).2]
  exact ⟨Spacing.slots_pairwise cfg.rateIntervalNs_pos.le,
    fun s hs => Spacing.free_le cfg.rateIntervalNs_pos.le hs⟩

/-! ## The phases -/

/-- Each thread goes through the phases in order. -/
theorem PacedRun.phase (h : PacedRun cfg beginNs c log) (i : Fin cfg.threadCount) :
    ∃ p, Pacing.Paces i p log ∧ (c.locals (some i)).body.rate.Agrees p := by
  refine h.invariant (I := fun c log =>
    ∃ p, Pacing.Paces i p log ∧ (c.locals (some i)).body.rate.Agrees p) ⟨.idle, .nil, ?_⟩ ?_
  · show (initialBody cfg i).rate.Agrees .idle
    unfold initialBody
    split_ifs <;> trivial
  intro c log j env _ _ ⟨p, hp, hagrees⟩
  rcases step_rate c j env with ⟨-, hrates, hnone⟩ | ⟨k, what, rfl, hstep, hnotes⟩
  · rw [hnone, List.append_nil, hrates]
    exact ⟨p, hp, hagrees⟩
  rw [hnotes]
  by_cases hk : k = i
  · subst hk
    cases what with
    | none => exact ⟨p, by simpa using hp, hstep.agrees_none hagrees⟩
    | some what =>
      obtain ⟨q, hnext, hq⟩ := hstep.agrees hagrees
      exact ⟨q, .own rfl hnext hp, hq⟩
  · have hne : some i ≠ some k := fun heq => hk (Option.some.inj heq).symm
    rw [Conf.step_local_ne hne]
    refine ⟨p, ?_, hagrees⟩
    cases what with
    | none => simpa using hp
    | some what => exact .other hk hp

/-- The requests a worker has counted are the ones of its that are in the log. -/
theorem PacedRun.acted (h : PacedRun cfg beginNs c log) (i : Fin cfg.threadCount) :
    (c.locals (some i)).body.sends = Pacing.acted i (fun _ => true) log := by
  refine h.invariant (I := fun c log =>
    (c.locals (some i)).body.sends = Pacing.acted i (fun _ => true) log) ?_ ?_
  · show (initialBody cfg i).sends = _
    unfold initialBody
    split_ifs <;> rfl
  intro c log j env _ _ ih
  cases j with
  | none =>
    rw [Conf.step_local_ne (by simp)]
    simpa [paces] using ih
  | some k =>
    simp only [paces]
    by_cases hk : k = i
    · subst hk
      rw [Conf.step_local_self]
      generalize c.locals (some k) = t at ih
      obtain ⟨ops, body⟩ := t
      cases ops with
      | cons op rest => simpa [step, Thread.notes] using ih
      | nil =>
        have hacts : (step cfg (some k) env c.shared ⟨[], body⟩).2.body.sends
            = body.sends + body.acts env c.shared.nextTokenNs := by
          cases body with
          | main m => rfl
          | event w => exact eventStep_acts w
          | slot s => exact slotStep_acts s
        rw [hacts, ih]
        unfold Body.acts Thread.notes
        cases body.notes env c.shared.nextTokenNs with
        | none => simp
        | some what => simp [Pacing.acted_concat]
    · have hne : some i ≠ some k := fun heq => hk (Option.some.inj heq).symm
      rw [Conf.step_local_ne hne, ih]
      cases (c.locals (some k)).notes env c.shared.nextTokenNs with
      | none => simp
      | some what => simp [Pacing.acted_concat, hk]

/-- **The rate of the requests of a run.** The requests the threads have counted are the ones in the
log. If the clock never goes back and no thread is awake before the slot it sleeps for, then the
requests sent up to any time are at most one more than the intervals since the run began, and
between any two times at most one more than the intervals between them, and one for each thread. -/
theorem requests_paced (h : PacedRun cfg beginNs c log)
    (hclock : log.Pairwise fun e e' => e.time ≤ e'.time) (hsleeps : log.Pairwise Pacing.Sleeps) :
    (∑ i : Fin cfg.threadCount, (c.locals (some i)).body.sends
      = Pacing.actions (fun _ => true) log) ∧
    (∀ hi : ℤ, beginNs ≤ hi →
      (Pacing.actions (· ≤ hi) log : ℤ) ≤ (hi - beginNs) / cfg.rateIntervalNs + 1) ∧
    ∀ lo hi : ℤ, lo ≤ hi → (Pacing.actions (fun t => decide (lo ≤ t ∧ t ≤ hi)) log : ℤ)
      ≤ (hi - lo) / cfg.rateIntervalNs + 1 + cfg.threadCount := by
  have hpaced : Pacing.Paced cfg.rateIntervalNs log :=
    { clock := hclock
      sleeps := hsleeps
      apart := h.slots_apart.1
      phase := fun i => (h.phase i).imp fun _ hp => hp.1 }
  refine ⟨?_, fun hi hle => hpaced.until_le cfg.rateIntervalNs_pos hle h.slots_apart.2,
    fun lo hi hle => ?_⟩
  · rw [← Pacing.sum_acted]
    exact Finset.sum_congr rfl fun i _ => h.acted i
  · have hwindow := hpaced.window_le cfg.rateIntervalNs_pos hle
    rwa [Fintype.card_fin] at hwindow

/-! ## Two requests of one worker -/

/-- Both requests are ready at the start; the second one waits for its slot. -/
def twoSlots : List (Option (Fin twoUdp.threadCount) × Env) :=
  let early : Option (Fin twoUdp.threadCount) × Env := (some ⟨0, twoUdp_worker⟩, {})
  let late : Option (Fin twoUdp.threadCount) × Env :=
    (some ⟨0, twoUdp_worker⟩, { nowNs := 2500000 })
  List.replicate 24 early ++ List.replicate 4 late

def twoSlotsLog : List (Entry (Fin twoUdp.threadCount)) :=
  let worker : Fin twoUdp.threadCount := ⟨0, twoUdp_worker⟩
  [⟨worker, 0, .read⟩, ⟨worker, 0, .grant 0⟩, ⟨worker, 0, .act⟩, ⟨worker, 0, .read⟩,
    ⟨worker, 0, .grant 2500000⟩, ⟨worker, 2500000, .act⟩]

theorem twoSlots_log : (init twoUdp 0).log (step twoUdp) paces twoSlots = twoSlotsLog := by
  decide +kernel

theorem requests_paced_two :
    Pacing.actions (fun t => decide (2500000 ≤ t ∧ t ≤ 2500000)) twoSlotsLog = 1 ∧
      (Pacing.actions (· ≤ 2500000) twoSlotsLog : ℤ) ≤ 2 := by
  have hrun : PacedRun twoUdp 0 ((init twoUdp 0).run (step twoUdp) twoSlots) twoSlotsLog := by
    rw [← twoSlots_log]
    exact logged_run _ (runOk_of_forall (fun _ _ _ => trivial) _)
  have hsleeps : twoSlotsLog.Pairwise Pacing.Sleeps := by
    simp [twoSlotsLog, Pacing.Sleeps, Pacing.Entry.slot]
  exact ⟨by decide, (requests_paced hrun (by decide) hsleeps).2.1 2500000 (by decide)⟩

end Engine

end TitanBench
