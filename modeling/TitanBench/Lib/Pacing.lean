import Mathlib.Algebra.BigOperators.Group.Finset.Basic
import Mathlib.Algebra.Order.BigOperators.Group.Finset
import Mathlib.Data.Fintype.BigOperators
import Mathlib.Data.List.TakeWhile
import TitanBench.Lib.Spacing

/-!
# Paced actions

A thread that wants to act reads the clock, is granted a slot that is not before the time it read,
sleeps until the slot and acts. The slots of all threads are a gap apart. A thread may be late, so
the actions need not be: in a window there may be one of each thread whose slot was before it.

* `Paces` — the entries of one thread in a log of such threads; `Paced` — the whole log.
* `Paced.window_le` — how many actions fall in a window of time.
* `Paced.until_le` — how many actions there are up to some time.
-/

namespace Pacing

variable {ι : Type*}

inductive What
  | read
  | grant (slot : ℤ)
  | act
  deriving DecidableEq

structure Entry (ι : Type*) where
  who : ι
  time : ℤ
  what : What
  deriving DecidableEq

/-- The slot an entry grants. -/
def Entry.slot (e : Entry ι) : Option ℤ :=
  match e.what with
  | .grant slot => some slot
  | _ => none

/-- Where a thread is: it has not asked, it has read the clock, or it has a slot. -/
inductive Phase
  | idle
  | asking (now : ℤ)
  | holding (slot : ℤ)

/-- What a thread may do at a time, and where it is then. A thread may ask again at any time. -/
inductive Phase.Next (time : ℤ) : Phase → What → Phase → Prop
  | read (p : Phase) : Next time p .read (.asking time)
  | grant {now slot : ℤ} : now ≤ slot → Next time (.asking now) (.grant slot) (.holding slot)
  | act (slot : ℤ) : Next time (.holding slot) .act .idle

/-- Thread `i` is in a phase after the log. -/
inductive Paces (i : ι) : Phase → List (Entry ι) → Prop
  | nil : Paces i .idle []
  | other {p : Phase} {log : List (Entry ι)} {e : Entry ι} :
      e.who ≠ i → Paces i p log → Paces i p (log ++ [e])
  | own {p q : Phase} {log : List (Entry ι)} {e : Entry ι} :
      e.who = i → Phase.Next e.time p e.what q → Paces i p log → Paces i q (log ++ [e])

/-- A later entry of the thread of a grant is not before the slot. -/
def Sleeps (e e' : Entry ι) : Prop := e'.who = e.who → ∀ slot ∈ e.slot, slot ≤ e'.time

/-- A log of threads that share slots a gap apart. -/
structure Paced (gap : ℤ) (log : List (Entry ι)) : Prop where
  clock : log.Pairwise fun e e' => e.time ≤ e'.time
  sleeps : log.Pairwise Sleeps
  apart : (log.filterMap Entry.slot).Pairwise fun s s' => s + gap ≤ s'
  phase : ∀ i, ∃ p, Paces i p log

/-- How many entries are actions at a time that satisfies `P`. -/
def actions (P : ℤ → Bool) (log : List (Entry ι)) : ℕ :=
  log.countP fun e => decide (e.what = .act) && P e.time

/-! ## Beginnings of a log -/

theorem Paces.before {i : ι} {p : Phase} {log log' : List (Entry ι)} (h : Paces i p (log ++ log')) :
    ∃ q, Paces i q log := by
  induction log' using List.reverseRecOn generalizing p with
  | nil => exact ⟨p, by simpa using h⟩
  | append_singleton log' e ih =>
    rw [← List.append_assoc] at h
    generalize hl : (log ++ log') ++ [e] = l at h
    cases h with
    | nil => simp at hl
    | other _ hp =>
      obtain ⟨rfl, -⟩ := List.append_inj' hl rfl
      exact ih hp
    | own _ _ hp =>
      obtain ⟨rfl, -⟩ := List.append_inj' hl rfl
      exact ih hp

theorem Paced.before {gap : ℤ} {log log' : List (Entry ι)} (h : Paced gap (log ++ log')) :
    Paced gap log where
  clock := (List.pairwise_append.mp h.clock).1
  sleeps := (List.pairwise_append.mp h.sleeps).1
  apart := by
    have hapart := h.apart
    rw [List.filterMap_append] at hapart
    exact (List.pairwise_append.mp hapart).1
  phase i := (h.phase i).elim fun _ hp => hp.before

section Cut

variable {gap hi : ℤ} {log : List (Entry ι)}

/-- The entries up to a time come first. -/
theorem Paced.split (h : Paced gap log) (hi : ℤ) : ∃ log₁ log₂, log = log₁ ++ log₂ ∧
    (∀ e ∈ log₁, e.time ≤ hi) ∧ ∀ e ∈ log₂, hi < e.time := by
  refine ⟨log.takeWhile (·.time ≤ hi), log.dropWhile (·.time ≤ hi),
    (List.takeWhile_append_dropWhile).symm,
    fun e he => by simpa using List.mem_takeWhile_imp he, ?_⟩
  have hclock := h.clock
  clear h
  induction log with
  | nil => simp
  | cons x log ih =>
    obtain ⟨hx, hrest⟩ := List.pairwise_cons.mp hclock
    rw [List.dropWhile_cons]
    split_ifs with hle
    · exact ih hrest
    · have hlt : hi < x.time := by simpa using hle
      intro e he
      rcases List.mem_cons.mp he with rfl | he
      · exact hlt
      · exact hlt.trans_le (hx e he)

/-- Only the entries up to a time count up to that time. -/
theorem actions_until {log₁ log₂ : List (Entry ι)} {P Q : ℤ → Bool}
    (hlo : ∀ e ∈ log₁, e.time ≤ hi) (hhi : ∀ e ∈ log₂, hi < e.time)
    (hP : ∀ t ≤ hi, P t = Q t) (hQ : ∀ t, hi < t → P t = false) :
    actions P (log₁ ++ log₂) = actions Q log₁ := by
  have hnone : actions P log₂ = 0 :=
    List.countP_eq_zero.mpr fun e he => by simp [hQ _ (hhi e he)]
  rw [actions, List.countP_append, ← actions, ← actions, hnone, Nat.add_zero]
  exact List.countP_congr fun e he => by rw [hP _ (hlo e he)]

end Cut

/-! ## One thread -/

section Thread

variable [DecidableEq ι]

/-- How many entries of thread `i` are actions at a time that satisfies `P`. -/
def acted (i : ι) (P : ℤ → Bool) (log : List (Entry ι)) : ℕ :=
  log.countP fun e => decide (e.who = i) && (decide (e.what = .act) && P e.time)

/-- How many entries of thread `i` grant a slot that satisfies `P`. -/
def granted (i : ι) (P : ℤ → Bool) (log : List (Entry ι)) : ℕ :=
  log.countP fun e => decide (e.who = i) && e.slot.any P

variable {i : ι} {lo hi : ℤ} {P : ℤ → Bool} {log : List (Entry ι)} {e : Entry ι} {p : Phase}

theorem acted_concat : acted i P (log ++ [e])
    = acted i P log + if e.who = i ∧ e.what = .act ∧ P e.time = true then 1 else 0 := by
  simp [acted, List.countP_append, List.countP_singleton]

theorem granted_concat : granted i P (log ++ [e])
    = granted i P log + if e.who = i ∧ e.slot.any P = true then 1 else 0 := by
  simp [granted, List.countP_append, List.countP_singleton]

/-- The slots of two kinds are at least those of either kind. -/
theorem granted_le_add {Q R : ℤ → Bool} (h : ∀ s, P s = true → Q s = true ∨ R s = true) :
    granted i P log ≤ granted i Q log + granted i R log := by
  induction log using List.reverseRecOn with
  | nil => exact le_rfl
  | append_singleton log e ih =>
    simp only [granted_concat]
    by_cases he : e.who = i ∧ e.slot.any P = true
    · obtain ⟨hwho, hany⟩ := he
      obtain ⟨s, hs, hP⟩ := (Option.any_eq_true _ _).mp hany
      rcases h s hP with hQ | hR
      · simp only [hwho, hs, Option.any_some, hP, hQ, and_self, if_true]
        omega
      · simp only [hwho, hs, Option.any_some, hP, hR, and_self, if_true]
        omega
    · rw [if_neg he]
      omega

/-- A thread that has a slot, or has read the clock before `lo`, may act once from `lo` on although
its slot is before. -/
def Phase.owes (lo : ℤ) : Phase → ℕ
  | .idle => 0
  | .asking now => if now < lo then 1 else 0
  | .holding _ => 1

def Phase.held : Phase → ℕ
  | .holding _ => 1
  | _ => 0

theorem Phase.held_le_owes (lo : ℤ) (p : Phase) : p.held ≤ p.owes lo := by
  cases p <;> simp [held, owes]

theorem acted_eq_zero (h : ∀ e ∈ log, e.time < lo) : acted i (lo ≤ ·) log = 0 := by
  refine List.countP_eq_zero.mpr fun e he => ?_
  have hlt := h e he
  simp only [Bool.and_eq_true, decide_eq_true_eq, not_and, not_le]
  exact fun _ _ => hlt

/-- A thread acts from `lo` on at most once more than it is granted a slot from `lo` on. -/
theorem Paces.acts_le (h : Paces i p log) (lo : ℤ)
    (hclock : log.Pairwise fun e e' => e.time ≤ e'.time) :
    acted i (lo ≤ ·) log + p.owes lo ≤ granted i (lo ≤ ·) log + 1 := by
  induction h with
  | nil => simp [acted, granted, Phase.owes]
  | other hne _ ih =>
    rw [acted_concat, granted_concat, if_neg fun h => hne h.1, if_neg fun h => hne h.1]
    exact ih (List.pairwise_append.mp hclock).1
  | @own p q log e hown hnext _ ih =>
    obtain ⟨hbefore, -, hlast⟩ := List.pairwise_append.mp hclock
    have hle := ih hbefore
    obtain ⟨who, time, what⟩ := e
    obtain rfl : who = i := hown
    rw [acted_concat, granted_concat]
    cases hnext with
    | read =>
      simp only [Entry.slot, reduceCtorEq, false_and, and_false, if_false, Option.any_none,
        Bool.false_eq_true, Phase.owes, add_zero]
      split_ifs with hlo
      · have hnone : acted who (lo ≤ ·) log = 0 := acted_eq_zero fun e he =>
          (hlast e he _ (List.mem_singleton_self _)).trans_lt hlo
        omega
      · omega
    | @grant now slot hslot =>
      simp only [Entry.slot, reduceCtorEq, false_and, and_false, if_false, Option.any_some,
        Phase.owes, true_and, decide_eq_true_eq, add_zero] at hle ⊢
      split_ifs at hle ⊢ <;> omega
    | act slot =>
      simp only [Entry.slot, Option.any_none, Bool.false_eq_true, and_false, if_false, Phase.owes,
        true_and, add_zero] at hle ⊢
      split_ifs <;> omega

/-- A thread that has a slot in the future has nothing else. -/
theorem Paces.late_le (h : Paces i p log) (hi : ℤ) (hsleeps : log.Pairwise Sleeps)
    (hhi : ∀ e ∈ log, e.time ≤ hi) : granted i (hi < ·) log ≤ p.held := by
  induction h with
  | nil => simp [granted]
  | other hne _ ih =>
    rw [granted_concat, if_neg fun h => hne h.1]
    exact ih (List.pairwise_append.mp hsleeps).1 fun e he => hhi e (List.mem_append_left _ he)
  | @own p q log e hown hnext _ ih =>
    obtain ⟨hbefore, -, hlast⟩ := List.pairwise_append.mp hsleeps
    have hle := ih hbefore fun e he => hhi e (List.mem_append_left _ he)
    have hnow : e.time ≤ hi := hhi e (List.mem_append_right _ (List.mem_singleton_self e))
    -- whoever is awake has no slot in the future
    have hawake : granted i (hi < ·) log = 0 := by
      refine List.countP_eq_zero.mpr fun g hg hlate => ?_
      simp only [Bool.and_eq_true, decide_eq_true_eq, Option.any_eq_true] at hlate
      obtain ⟨hwho, s, hs, hlt⟩ := hlate
      have hslot := hlast g hg e (List.mem_singleton_self e) (hown.trans hwho.symm) s hs
      omega
    obtain ⟨who, time, what⟩ := e
    rw [granted_concat, hawake]
    cases hnext with
    | read | act => simp [Entry.slot]
    | grant hslot =>
      simp only [Phase.held]
      split_ifs <;> omega

/-- A thread acts at most once for each slot. -/
theorem Paces.acts_le_granted (h : Paces i p log) :
    acted i (fun _ => true) log + p.held ≤ granted i (fun _ => true) log := by
  induction h with
  | nil => simp [acted, granted, Phase.held]
  | other hne _ ih =>
    rw [acted_concat, granted_concat, if_neg fun h => hne h.1, if_neg fun h => hne h.1]
    exact ih
  | @own p q log e hown hnext _ ih =>
    obtain ⟨who, time, what⟩ := e
    obtain rfl : who = i := hown
    rw [acted_concat, granted_concat]
    cases hnext with
    | read =>
      simp only [Entry.slot, reduceCtorEq, false_and, and_false, if_false, Option.any_none,
        Bool.false_eq_true, Phase.held, add_zero]
      omega
    | grant hslot =>
      simp only [Entry.slot, reduceCtorEq, false_and, and_false, if_false, Option.any_some,
        Phase.held, and_self, if_true, add_zero] at ih ⊢
      omega
    | act slot =>
      simp only [Entry.slot, Option.any_none, Bool.false_eq_true, and_false, if_false, Phase.held,
        add_zero] at ih ⊢
      split_ifs <;> omega

end Thread

/-! ## All threads -/

section Threads

variable [Fintype ι] [DecidableEq ι] {gap lo hi : ℤ} {log : List (Entry ι)}

/-- What is counted for each thread is counted once. -/
theorem sum_countP (q : Entry ι → Bool) (log : List (Entry ι)) :
    ∑ i, log.countP (fun e => decide (e.who = i) && q e) = log.countP q := by
  induction log with
  | nil => simp
  | cons e log ih =>
    simp only [List.countP_cons, Finset.sum_add_distrib, ih]
    cases q e <;> simp

theorem sum_granted (P : ℤ → Bool) :
    ∑ i, granted i P log = (log.filterMap Entry.slot).countP P := by
  rw [List.countP_filterMap]
  refine (sum_countP (fun e => e.slot.any P) log).trans (List.countP_congr fun e _ => ?_)
  cases e.slot <;> simp

theorem sum_acted (P : ℤ → Bool) : ∑ i, acted i P log = actions P log :=
  sum_countP (fun e => decide (e.what = .act) && P e.time) log

/-- **Actions in a window.** One for each slot that fits, and one for each thread. -/
theorem Paced.window_le (h : Paced gap log) (hgap : 0 < gap) (hle : lo ≤ hi) :
    (actions (fun t => decide (lo ≤ t ∧ t ≤ hi)) log : ℤ)
      ≤ (hi - lo) / gap + 1 + Fintype.card ι := by
  obtain ⟨log₁, log₂, rfl, htimes, hlater⟩ := h.split hi
  have h₁ := h.before
  have heach : ∀ i, acted i (lo ≤ ·) log₁
      ≤ granted i (fun s => decide (lo ≤ s ∧ s ≤ hi)) log₁ + 1 := by
    intro i
    obtain ⟨p, hp⟩ := h₁.phase i
    have hacts := hp.acts_le lo h₁.clock
    have hlate := hp.late_le hi h₁.sleeps htimes
    have hheld := p.held_le_owes lo
    have hsplit : granted i (lo ≤ ·) log₁
        ≤ granted i (fun s => decide (lo ≤ s ∧ s ≤ hi)) log₁ + granted i (hi < ·) log₁ := by
      refine granted_le_add fun s hs => ?_
      simp only [decide_eq_true_eq] at hs ⊢
      omega
    omega
  have hsum : ∑ i, acted i (lo ≤ ·) log₁
      ≤ ∑ i : ι, (granted i (fun s => decide (lo ≤ s ∧ s ≤ hi)) log₁ + 1) :=
    Finset.sum_le_sum fun i _ => heach i
  rw [sum_acted, Finset.sum_add_distrib, sum_granted, Finset.sum_const, Finset.card_univ,
    nsmul_one, Nat.cast_id] at hsum
  have hfit := Spacing.count_window lo hi hgap h₁.apart hle
  have hcut := actions_until (P := fun t => decide (lo ≤ t ∧ t ≤ hi)) (Q := (lo ≤ ·)) htimes hlater
    (fun t ht => by simp [ht]) (fun t ht => by simp [ht])
  omega

/-- **Actions up to a time**, if no slot is before `lo`. -/
theorem Paced.until_le (h : Paced gap log) (hgap : 0 < gap) (hle : lo ≤ hi)
    (hslots : ∀ s ∈ log.filterMap Entry.slot, lo ≤ s) :
    (actions (· ≤ hi) log : ℤ) ≤ (hi - lo) / gap + 1 := by
  obtain ⟨log₁, log₂, rfl, htimes, hlater⟩ := h.split hi
  have h₁ := h.before
  have heach : ∀ i, acted i (fun _ => true) log₁ ≤ granted i (· ≤ hi) log₁ := by
    intro i
    obtain ⟨p, hp⟩ := h₁.phase i
    have hacts := hp.acts_le_granted
    have hlate := hp.late_le hi h₁.sleeps htimes
    have hsplit : granted i (fun _ => true) log₁
        ≤ granted i (· ≤ hi) log₁ + granted i (hi < ·) log₁ := by
      refine granted_le_add fun s _ => ?_
      simp only [decide_eq_true_eq]
      omega
    omega
  have hsum : ∑ i, acted i (fun _ => true) log₁ ≤ ∑ i : ι, granted i (· ≤ hi) log₁ :=
    Finset.sum_le_sum fun i _ => heach i
  rw [sum_acted, sum_granted] at hsum
  have hfit := Spacing.count_window lo hi hgap h₁.apart hle
  have hinside : (log₁.filterMap Entry.slot).countP (· ≤ hi)
      = (log₁.filterMap Entry.slot).countP fun s => decide (lo ≤ s ∧ s ≤ hi) := by
    refine List.countP_congr fun s hs => ?_
    have hlo : lo ≤ s := hslots s (by rw [List.filterMap_append]; exact List.mem_append_left _ hs)
    simp only [decide_eq_true_eq]
    exact ⟨fun h => ⟨hlo, h⟩, And.right⟩
  have hcut := actions_until (P := (· ≤ hi)) (Q := fun _ => true) htimes hlater
    (fun t ht => by simp [ht]) (fun t ht => by simp [ht])
  omega

end Threads

end Pacing
