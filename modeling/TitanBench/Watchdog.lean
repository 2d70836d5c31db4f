import TitanBench.Overflow

/-!
# The end of a run

`main` starts the watchdog thread, runs the engine, sets `engine_finished` and joins the watchdog
before it prints. The engine is part of the environment: it returns at any time, with success or an
error, or not at all.

**What is wrong.** The watchdog looks at the flag once, after a sleep that takes the whole guard.
Nothing wakes it up before, so a run that is finished waits for the deadline of one that hangs.

* `Process.step` — the steps of `main`, of the watchdog and of the clock.
* `Process.Inv` — what holds in every state of a run.
* `reported_after_deadline` — nothing is printed before the deadline.
* `finished_held_back` — every run that returns before the deadline is held back.
-/

namespace TitanBench

inductive MainPc
  /-- In `BenchmarkEngine::Run`. -/
  | running
  | returned (ok : Bool)
  | joining (ok : Bool)
  | printing (ok : Bool)
  | exited (ok : Bool)
  deriving DecidableEq

inductive WatchdogPc
  | starting
  | sleeping (untilNs : ℤ)
  | checking
  | ended
  deriving DecidableEq

/-- The process, from the moment the watchdog thread is made. -/
structure Process where
  nowNs : ℤ := 0
  engineFinished : Bool := false
  main : MainPc := .running
  watchdog : WatchdogPc := .starting
  /-- The watchdog has called `std::_Exit`. -/
  aborted : Bool := false
  deriving DecidableEq

inductive ProcessAct
  | main
  | watchdog
  | engineReturns (ok : Bool)
  | tick (ns : ℕ)
  deriving DecidableEq

namespace Process

/-- The next step of `main`; `none` where it has to wait. -/
def mainStep (s : Process) : Option Process :=
  match s.main with
  | .running => none
  | .returned ok => some { s with engineFinished := true, main := .joining ok }
  | .joining ok => if s.watchdog = .ended then some { s with main := .printing ok } else none
  | .printing ok => some { s with main := .exited ok }
  | .exited _ => none

/-- The next step of the watchdog; `none` where it has to wait, or where the guard overflows. -/
def watchdogStep (cfg : Config) (s : Process) : Option Process :=
  match s.watchdog with
  | .starting =>
    cfg.guardSeconds.map fun guardSeconds =>
      { s with watchdog := .sleeping (s.nowNs + guardSeconds * 1000000000) }
  | .sleeping untilNs =>
    if s.nowNs < untilNs then none else some { s with watchdog := .checking }
  | .checking =>
    if s.engineFinished then some { s with watchdog := .ended } else some { s with aborted := true }
  | .ended => none

def step (cfg : Config) (s : Process) (a : ProcessAct) : Option Process :=
  if s.aborted then none
  else
    match a with
    | .main => s.mainStep
    | .watchdog => s.watchdogStep cfg
    | .engineReturns ok => if s.main = .running then some { s with main := .returned ok } else none
    | .tick ns => some { s with nowNs := s.nowNs + ns }

/-- The states of the runs of `main`. -/
inductive Reach (cfg : Config) : Process → Prop
  | start : Reach cfg {}
  | step {s s' : Process} (a : ProcessAct) : Reach cfg s → s.step cfg a = some s' → Reach cfg s'

/-- When the guard that starts with the watchdog thread is over. -/
def deadlineNs (guardSeconds : ℤ) : ℤ := guardSeconds * 1000000000

/-- The engine has finished before the deadline, and `main` waits for the watchdog to end. -/
structure HeldBack (deadline : ℤ) (s : Process) : Prop where
  finished : s.engineFinished = true
  early : s.nowNs < deadline
  joins : ∃ ok, s.main = .joining ok
  watches : s.watchdog ≠ .ended

/-! ## What holds in every state -/

/-- Which states of the watchdog can be before the deadline, and which of `main` follow the
watchdog's end. -/
structure Inv (deadline : ℤ) (s : Process) : Prop where
  clock : 0 ≤ s.nowNs
  sleeping : ∀ untilNs, s.watchdog = .sleeping untilNs → deadline ≤ untilNs
  awake : s.watchdog = .checking ∨ s.watchdog = .ended → deadline ≤ s.nowNs
  aborted : s.aborted = true → deadline ≤ s.nowNs
  running : s.engineFinished = true ↔ s.main ≠ .running ∧ ∀ ok, s.main ≠ .returned ok
  joined : ∀ ok, s.main = .printing ok ∨ s.main = .exited ok → s.watchdog = .ended

theorem inv_start {deadline : ℤ} : ({} : Process).Inv deadline := by
  constructor <;> simp

theorem mainStep_inv {deadline : ℤ} {s s' : Process} (hi : s.Inv deadline)
    (h : s.mainStep = some s') : s'.Inv deadline := by
  unfold mainStep at h
  cases hmain : s.main with
  | running => simp [hmain] at h
  | returned ok =>
    simp only [hmain, Option.some.injEq] at h
    subst h
    exact { hi with running := by simp, joined := by simp }
  | joining ok =>
    simp only [hmain, Option.ite_none_right_eq_some, Option.some.injEq] at h
    obtain ⟨hended, rfl⟩ := h
    have hfinished := hi.running.mpr (by simp [hmain])
    exact { hi with running := by simp [hfinished], joined := by simp [hended] }
  | printing ok =>
    simp only [hmain, Option.some.injEq] at h
    subst h
    have hfinished := hi.running.mpr (by simp [hmain])
    have hended := hi.joined ok (.inl hmain)
    exact { hi with running := by simp [hfinished], joined := by simp [hended] }
  | exited ok => simp [hmain] at h

theorem watchdogStep_inv {cfg : Config} {guardSeconds : ℤ}
    (hguard : cfg.guardSeconds = some guardSeconds) {s s' : Process}
    (hi : s.Inv (deadlineNs guardSeconds)) (h : s.watchdogStep cfg = some s') :
    s'.Inv (deadlineNs guardSeconds) := by
  have hnotEnded : s.watchdog ≠ .ended → ∀ ok, ¬ (s.main = .printing ok ∨ s.main = .exited ok) :=
    fun hne ok hmain => hne (hi.joined ok hmain)
  unfold watchdogStep at h
  cases hwatchdog : s.watchdog with
  | starting =>
    simp only [hwatchdog, hguard, Option.map_some, Option.some.injEq] at h
    subst h
    have hclock := hi.clock
    refine { hi with sleeping := ?_, awake := by simp, joined := ?_ }
    · rintro untilNs ⟨⟩
      unfold deadlineNs
      omega
    · intro ok hmain
      exact absurd hmain (hnotEnded (by simp [hwatchdog]) ok)
  | sleeping untilNs =>
    simp only [hwatchdog, Option.ite_none_left_eq_some, Option.some.injEq] at h
    obtain ⟨hover, rfl⟩ := h
    have huntil := hi.sleeping untilNs hwatchdog
    refine { hi with sleeping := by simp, awake := ?_, joined := ?_ }
    · intro _
      exact huntil.trans (not_lt.mp hover)
    · intro ok hmain
      exact absurd hmain (hnotEnded (by simp [hwatchdog]) ok)
  | checking =>
    have hawake := hi.awake (.inl hwatchdog)
    simp only [hwatchdog] at h
    split_ifs at h
    · cases h
      exact { hi with sleeping := by simp, awake := fun _ => hawake, joined := by simp }
    · cases h
      refine { hi with
        sleeping := by simp
        awake := fun _ => hawake
        aborted := fun _ => hawake
        joined := ?_ }
      intro ok hmain
      exact absurd hmain (hnotEnded (by simp [hwatchdog]) ok)
  | ended => simp [hwatchdog] at h

theorem step_inv {cfg : Config} {guardSeconds : ℤ}
    (hguard : cfg.guardSeconds = some guardSeconds) {s s' : Process} {a : ProcessAct}
    (hi : s.Inv (deadlineNs guardSeconds)) (h : s.step cfg a = some s') :
    s'.Inv (deadlineNs guardSeconds) := by
  obtain ⟨-, h⟩ := Option.ite_none_left_eq_some.mp h
  cases a with
  | main => exact mainStep_inv hi h
  | watchdog => exact watchdogStep_inv hguard hi h
  | engineReturns ok =>
    simp only [Option.ite_none_right_eq_some, Option.some.injEq] at h
    obtain ⟨hmain, rfl⟩ := h
    have hunfinished : ¬ s.engineFinished = true := fun hfinished =>
      (hi.running.mp hfinished).1 hmain
    exact { hi with running := by simpa using hunfinished, joined := by simp }
  | tick ns =>
    cases h
    have hlater : s.nowNs ≤ s.nowNs + ns := by omega
    exact { hi with
      clock := hi.clock.trans hlater
      awake := fun h => (hi.awake h).trans hlater
      aborted := fun h => (hi.aborted h).trans hlater }

theorem Reach.inv {cfg : Config} {guardSeconds : ℤ}
    (hguard : cfg.guardSeconds = some guardSeconds) {s : Process} (h : Reach cfg s) :
    s.Inv (deadlineNs guardSeconds) := by
  induction h with
  | start => exact inv_start
  | step a _ hstep ih => exact step_inv hguard ih hstep

/-! ## What the guard does to a run -/

section Guarded

variable {cfg : Config} {guardSeconds : ℤ} {s : Process}

/-- The guard never ends a process before the deadline, -/
theorem aborted_after_deadline (hguard : cfg.guardSeconds = some guardSeconds) (h : Reach cfg s)
    (haborted : s.aborted = true) : deadlineNs guardSeconds ≤ s.nowNs :=
  (h.inv hguard).aborted haborted

/-- nor does it let one print. -/
theorem reported_after_deadline (hguard : cfg.guardSeconds = some guardSeconds) (h : Reach cfg s)
    {ok : Bool} (hmain : s.main = .printing ok ∨ s.main = .exited ok) :
    deadlineNs guardSeconds ≤ s.nowNs :=
  (h.inv hguard).awake (.inr ((h.inv hguard).joined ok hmain))

/-- As soon as the flag is set `main` is held back, up to the deadline. -/
theorem heldBack_of_finished (hguard : cfg.guardSeconds = some guardSeconds) (h : Reach cfg s)
    (hfinished : s.engineFinished = true) (hearly : s.nowNs < deadlineNs guardSeconds) :
    s.HeldBack (deadlineNs guardSeconds) := by
  have hi := h.inv hguard
  have hwatches : s.watchdog ≠ .ended := fun hended =>
    absurd (hi.awake (.inr hended)) (not_le.mpr hearly)
  obtain ⟨hrunning, hreturned⟩ := hi.running.mp hfinished
  refine ⟨hfinished, hearly, ?_, hwatches⟩
  cases hmain : s.main with
  | running => exact absurd hmain hrunning
  | returned ok => exact absurd hmain (hreturned ok)
  | joining ok => exact ⟨ok, rfl⟩
  | printing ok => exact absurd (hi.joined ok (.inl hmain)) hwatches
  | exited ok => exact absurd (hi.joined ok (.inr hmain)) hwatches

/-- A held back `main` cannot take its next step. -/
theorem HeldBack.blocked {deadline : ℤ} (h : s.HeldBack deadline) (cfg : Config) :
    s.step cfg .main = none := by
  obtain ⟨ok, hmain⟩ := h.joins
  simp [step, mainStep, hmain, h.watches]

end Guarded

/-- **Every run that returns before the deadline is held back**, and there are such runs, for every
accepted configuration with a guard. -/
theorem finished_held_back {cfg : CliConfig} (h : Accepted cfg) {guardSeconds : ℤ}
    (hguard : cfg.guardSeconds = some guardSeconds) :
    (∀ ok, ∃ s, Reach cfg.toConfig s ∧ s.main = .returned ok ∧
        s.nowNs < deadlineNs guardSeconds) ∧
      ∀ s ok, Reach cfg.toConfig s → s.main = .returned ok → s.nowNs < deadlineNs guardSeconds →
        ∃ s', s.step cfg.toConfig .main = some s' ∧ s'.HeldBack (deadlineNs guardSeconds) ∧
          s'.step cfg.toConfig .main = none := by
  have hpos : 0 < deadlineNs guardSeconds := by
    have hduration := h.ranged.duration.1
    unfold deadlineNs
    unfold Config.guardSeconds at hguard
    split_ifs at hguard
    · obtain ⟨-, -, rfl⟩ := int32_eq_some_iff.mp hguard
      omega
    · cases hguard
      decide
  constructor
  · intro ok
    exact ⟨{ main := .returned ok }, Reach.start.step (.engineReturns ok) rfl, rfl, hpos⟩
  · intro s ok hr hreturned hearly
    have halive : s.aborted = false := by
      by_contra haborted
      have := aborted_after_deadline hguard hr (by simpa using haborted)
      omega
    have hstep : s.step cfg.toConfig .main =
        some { s with engineFinished := true, main := .joining ok } := by
      simp [step, mainStep, halive, hreturned]
    have hheld := heldBack_of_finished hguard (hr.step .main hstep) rfl hearly
    exact ⟨_, hstep, hheld, hheld.blocked cfg.toConfig⟩

/-- A duration run of ten seconds that returns after eleven. -/
def elevenSeconds : Process :=
  { nowNs := 11000000000, main := .returned true, watchdog := .sleeping 70000000000 }

theorem elevenSeconds_reach : Reach (loadConfig 1).toConfig elevenSeconds :=
  ((Reach.start.step .watchdog rfl).step (.tick 11000000000) rfl).step (.engineReturns true) rfl

theorem loadConfig_one : Accepted (loadConfig 1) :=
  @loadConfig_accepted (ascii "1") 1 (by decide)

theorem elevenSeconds_held_back :
    ∃ s', elevenSeconds.step (loadConfig 1).toConfig .main = some s' ∧
      s'.HeldBack (deadlineNs 70) ∧ s'.step (loadConfig 1).toConfig .main = none :=
  (@finished_held_back (loadConfig 1) loadConfig_one 70 rfl).2 elevenSeconds true
    elevenSeconds_reach rfl (by decide)

/-- The watchdog sleeps on for 59 seconds. -/
theorem finished_not_free :
    ¬ ∀ (cfg : CliConfig) (guardSeconds : ℤ), Accepted cfg → cfg.guardSeconds = some guardSeconds →
      ∀ s, Reach cfg.toConfig s → ¬ s.HeldBack (deadlineNs guardSeconds) := by
  intro h
  apply h (loadConfig 1) 70 loadConfig_one rfl
    { elevenSeconds with engineFinished := true, main := .joining true }
  · exact elevenSeconds_reach.step .main rfl
  · exact ⟨rfl, by decide, ⟨true, rfl⟩, by decide⟩

end Process

end TitanBench
