import TitanBench.EngineSessions
import TitanBench.Lib.Budget

/-!
# Retries

A session is retried after an error event, a slot after a failed connect or a failed request, each
three times at most until a response is completed.

* `EventWorker.Tries`, `Slot.Tries` — what a step does to the retries, with the `RetryMark`s it
  leaves behind; `eventStep_tries`, `slotStep_tries`.
* `Thread.RetriesBounded` — no retry count exceeds the maximum.
* `Body.triesLeft` — the retries that are possible without a completion. A retry takes one of them,
  and only a completion gives up to three back.
* `Runs.retried_le` — so the retries of a whole run are bounded.
-/

namespace TitanBench

open Threads

/-- What is seen of the sessions of a worker: a pass of the send loop begins, an error event of the
session under `id`, the session is created again under `id`, a request is sent. -/
inductive RetryMark
  | swept (ns : ℕ)
  | failed (id retries ns : ℕ)
  | reopened (id retries ns : ℕ)
  | sent (id retries ns : ℕ)
  deriving DecidableEq

/-- The time of the mark. -/
def RetryMark.ns : RetryMark → ℕ
  | .swept ns | .failed _ _ ns | .reopened _ _ ns | .sent _ _ ns => ns

/-- The retries the session has left. -/
def Session.triesLeft (s : Session) : ℕ := maxRetryPerSession - s.retries

theorem Session.triesLeft_le (s : Session) : s.triesLeft ≤ maxRetryPerSession := Nat.sub_le _ _

/-- The session taken out of the map. -/
def EventCtl.held : EventCtl → Option Session
  | .retrying old _ | .reconnecting old _ => some old
  | _ => none

/-- The sessions the worker has still to create, when it is given `share`. -/
def EventCtl.fresh (share : ℕ) : EventCtl → ℕ
  | .start => share
  | .connecting left => left
  | _ => 0

/-- The clock reading of the pass of the send loop. -/
def EventCtl.pass : EventCtl → Option ℕ
  | .visiting now _ | .acquiring _ _ now _ | .waiting _ _ now _ | .sending _ now _ => some now
  | _ => none

namespace EventWorker

variable {n : ℕ} {cfg : Config} {i : Fin n} {env : Env} {sh : Shared n} {w : EventWorker}

/-- What the step of the worker leaves behind. -/
def marks (cfg : Config) (env : Env) (w : EventWorker) : List RetryMark :=
  match w.ctl with
  | .loopTop => [.swept env.nowNs]
  | .sending id _ _ => ((w.sessions.lookup id).map fun s => .sent id s.retries env.nowNs).toList
  | .handling (ev :: _) =>
    if ev.isError then
      ((w.sessions.lookup ev.connId).map fun s => .failed ev.connId s.retries env.nowNs).toList
    else []
  | .reconnecting old _ =>
    if (submitConnection cfg env.submit w.net).2.1 = .ok then
      [.reopened (submitConnection cfg env.submit w.net).2.2 old.retries env.nowNs]
    else []
  | _ => []

/-- Everything a step can do to the retries of a worker that creates `share` sessions. -/
inductive Tries (share : ℕ) (env : Env) (w : EventWorker) :
    List RetryMark → List Op → EventWorker → Prop
  | stays {marks : List RetryMark} {ops : List Op} {w' : EventWorker} :
      owed .retried ops = 0 → w'.sessions = w.sessions → w'.ctl.held = none →
      w'.ctl.fresh share ≤ w.ctl.fresh share → w'.ctl.pass = none ∨ w'.ctl.pass = w.ctl.pass →
      w'.picked = none ∨ w'.picked = w.picked → Tries share env w marks ops w'
  | sweeps (todo : List ℕ) : w.ctl = .loopTop →
      Tries share env w [.swept env.nowNs] [] (w.goto (.visiting env.nowNs todo))
  | picks {id now : ℕ} {todo : List ℕ} {s : Session} :
      w.ctl = .visiting now (id :: todo) → w.sessions.lookup id = some s → s.retryAtNs ≤ now →
      Tries share env w [] [] (w.goto (.acquiring id .load now todo))
  | creates {left id : ℕ} {s : Session} {w' : EventWorker} :
      w.ctl = .connecting (left + 1) → w'.sessions = w.sessions.insert id s → s.retries = 0 →
      w'.ctl = .connecting left → Tries share env w [] [] w'
  | reopens {old s : Session} {events : List RecvEvent} {id : ℕ} {w' : EventWorker} :
      w.ctl = .reconnecting old events → w'.sessions = w.sessions.insert id s →
      s.retries = old.retries → s.retryAtNs = env.nowNs + backoffNs old.retries →
      w'.ctl = .handling events →
      Tries share env w [.reopened id old.retries env.nowNs] [] w'
  | requests {id now : ℕ} {todo : List ℕ} {s s' : Session} {marks : List RetryMark} {ops : List Op}
      {w' : EventWorker} :
      w.ctl = .sending id now todo → w.sessions.lookup id = some s → owed .retried ops = 0 →
      w'.sessions = w.sessions.insert id s' → s'.retries = s.retries →
      s'.retryAtNs = s.retryAtNs → w'.ctl = .visiting now todo →
      Tries share env w marks ops w'
  | errs {ev : RecvEvent} {events : List RecvEvent} {old : Session} {ops : List Op}
      {w' : EventWorker} :
      w.ctl = .handling (ev :: events) → w.sessions.lookup ev.connId = some old →
      owed .retried ops = 0 → w'.sessions = w.sessions.erase ev.connId →
      w'.ctl = .retrying old events →
      Tries share env w [.failed ev.connId old.retries env.nowNs] ops w'
  | digests {ev : RecvEvent} {events : List RecvEvent} {old s : Session} {ops : List Op}
      {w' : EventWorker} :
      w.ctl = .handling (ev :: events) → w.sessions.lookup ev.connId = some old →
      owed .retried ops = 0 → s.connId = old.connId → s.retryAtNs = old.retryAtNs →
      s.retries = old.retries ∨ s.retries = 0 ∧ owed .completed ops = 1 →
      w'.sessions = (w.sessions.erase ev.connId).insert s.connId s → w'.ctl = .handling events →
      Tries share env w [] ops w'
  | retries {old : Session} {events : List RecvEvent} :
      w.ctl = .retrying old events → old.retries < maxRetryPerSession →
      Tries share env w [] [.add .retried 1]
        (w.goto (.reconnecting { old with retries := old.retries + 1 } events))

theorem dataEvent_tries (cfg : Config) (env : Env) (data : Bytes) (old : Session) :
    owed .retried (dataEvent cfg env data old).1 = 0 ∧
      (dataEvent cfg env data old).2.retryAtNs = old.retryAtNs ∧
      ((dataEvent cfg env data old).2.retries = old.retries ∨
        (dataEvent cfg env data old).2.retries = 0 ∧
          owed .completed (dataEvent cfg env data old).1 = 1) := by
  have hd := dataEvent_digested cfg env data old
  generalize dataEvent cfg env data old = r at hd
  cases hd with
  | other | awaited => exact ⟨rfl, rfl, .inl rfl⟩
  | rejected => exact ⟨by simp [parseErrorOps], rfl, .inl rfl⟩
  | finished => exact ⟨by simp [owed_response], rfl, .inr ⟨rfl, completed_response ..⟩⟩

/-- The steps of the worker elsewhere than where a pass begins, a session is picked or a connection
is asked for. -/
theorem Move.tries {r : Shared n × List Op × EventWorker} (hm : w.Move cfg i env sh r)
    (hsweep : w.ctl ≠ .loopTop) (hpick : ∀ now todo, w.ctl ≠ .visiting now todo)
    (hopen : ∀ next, ¬ Opens w.ctl next) :
    Tries (cfg.perWorker i) env w (w.marks cfg env) r.2.1 r.2.2 := by
  have hstays : ∀ {ops w'}, owed .retried ops = 0 → w'.sessions = w.sessions →
      w'.ctl.held = none → w'.ctl.fresh (cfg.perWorker i) = 0 →
      w'.ctl.pass = none ∨ w'.ctl.pass = w.ctl.pass → w'.picked = none ∨ w'.picked = w.picked →
      Tries (cfg.perWorker i) env w (w.marks cfg env) ops w' :=
    fun hops hs hh hf hp hk => .stays hops hs hh (hf.trans_le (Nat.zero_le _)) hp hk
  cases hm with
  | goes hg =>
    cases hg with
    | sweep _ _ hc => exact absurd hc hsweep
    | swept hc | skip hc | pick hc => exact absurd hc (hpick _ _)
    | gone hc => exact hstays rfl rfl rfl rfl (.inr (by rw [hc]; rfl)) (.inl rfl)
    | _ => exact hstays rfl rfl rfl rfl (.inl rfl) (.inl rfl)
  | opened _ hopens | notOpened hopens => exact absurd hopens (hopen _)
  | started hc _ =>
    refine .stays rfl rfl rfl ?_ (.inl rfl) (.inl rfl)
    rw [hc]
    exact le_rfl
  | acquires hc =>
    exact hstays rfl rfl rfl rfl (.inr (by rw [hc]; rfl)) (.inr (by simp [picked, goto, hc]))
  | refused hc => exact hstays rfl rfl rfl rfl (.inr (by rw [hc]; rfl)) (.inl rfl)
  | granted hc =>
    exact hstays rfl rfl rfl rfl (.inr (by rw [hc]; rfl)) (.inr (by simp [picked, hc]))
  | waits token hc =>
    exact hstays rfl rfl rfl rfl (.inr (by rw [hc]; rfl)) (.inr (by simp [picked, goto, hc]))
  | waited token hc =>
    exact hstays rfl rfl rfl rfl (.inr (by rw [hc]; rfl)) (.inr (by simp [picked, goto, hc]))
  | sent hc =>
    exact hstays (by simp [sendDoneOps]) rfl rfl rfl (.inr (by rw [hc]; rfl)) (.inl rfl)
  | sendFailed hc =>
    exact hstays (by simp [sendFailedOps]) rfl rfl rfl (.inr (by rw [hc]; rfl)) (.inl rfl)
  | requested hc hl => exact .requests hc hl (by simp) rfl rfl rfl rfl
  | @errored ev events old hc hl herr =>
    have hmarks : w.marks cfg env = [.failed ev.connId old.retries env.nowNs] := by
      simp only [marks, hc, herr, hl, if_true, Option.map_some, Option.toList_some]
    rw [hmarks]
    refine .errs hc hl ?_ rfl rfl
    unfold errorOps
    split_ifs <;> simp
  | @received ev events old hc hl herr =>
    have hmarks : w.marks cfg env = [] := by simp [marks, hc, herr]
    obtain ⟨hops, hat, hretries⟩ := dataEvent_tries cfg env ev.data old
    rw [hmarks]
    refine .digests hc hl ?_ (dataEvent_connId cfg env ev.data old) hat ?_ rfl rfl
    · simpa using hops
    · simpa using hretries
  | retried hc hlt _ =>
    have hmarks : w.marks cfg env = [] := by simp [marks, hc]
    rw [hmarks]
    exact .retries hc hlt
  | _ => exact hstays rfl rfl rfl rfl (.inl rfl) (.inl rfl)

theorem eventStep_tries (cfg : Config) (i : Fin n) (env : Env) (sh : Shared n) (w : EventWorker) :
    Tries (cfg.perWorker i) env w (w.marks cfg env) (eventStep cfg i env sh w).2.1
      (eventStep cfg i env sh w).2.2 := by
  have hmove := eventStep_move cfg i env sh w
  cases hc : w.ctl with
  | loopTop =>
    have hmarks : w.marks cfg env = [.swept env.nowNs] := by simp [marks, hc]
    unfold eventStep
    rw [hmarks, hc]
    dsimp only
    split_ifs
    · exact .stays rfl rfl rfl (Nat.zero_le _) (.inl rfl) (.inl rfl)
    · exact .sweeps _ hc
  | visiting now todo =>
    have hmarks : w.marks cfg env = [] := by simp [marks, hc]
    have hskip : ∀ todo', Tries (cfg.perWorker i) env w [] [] (w.goto (.visiting now todo')) :=
      fun todo' => .stays rfl rfl rfl (Nat.zero_le _) (.inr (by rw [hc]; rfl)) (.inl rfl)
    unfold eventStep
    rw [hmarks, hc]
    cases todo with
    | nil => exact .stays rfl rfl rfl (Nat.zero_le _) (.inl rfl) (.inl rfl)
    | cons id todo =>
      dsimp only
      cases hl : w.sessions.lookup id with
      | none => exact hskip todo
      | some s =>
        dsimp only
        split_ifs with hwait
        · exact hskip todo
        · exact .picks hc hl (not_lt.mp fun hlt => hwait (.inr (.inr hlt)))
  | connecting left =>
    have hmarks : w.marks cfg env = [] := by simp [marks, hc]
    unfold eventStep
    rw [hmarks, hc]
    cases left with
    | zero => exact .stays rfl rfl rfl (Nat.zero_le _) (.inl rfl) (.inl rfl)
    | succ left =>
      dsimp only
      rw [createConnection_eq]
      split_ifs
      · exact .creates hc rfl rfl rfl
      · exact .stays rfl rfl rfl (Nat.zero_le _) (.inl rfl) (.inl rfl)
  | reconnecting old events =>
    have hmarks : w.marks cfg env = if (submitConnection cfg env.submit w.net).2.1 = .ok then
        [.reopened (submitConnection cfg env.submit w.net).2.2 old.retries env.nowNs] else [] := by
      simp only [marks, hc]
    unfold eventStep
    rw [hmarks, hc]
    dsimp only
    rw [createConnection_eq]
    split_ifs
    · exact .reopens hc rfl rfl rfl rfl
    · exact .stays rfl rfl rfl (Nat.zero_le _) (.inl rfl) (.inl rfl)
  | _ =>
    refine hmove.tries (by simp [hc]) (by simp [hc]) fun next hopens => ?_
    rw [hc] at hopens
    cases hopens

/-- The retries that are possible without a completion, `share` sessions being created. -/
def triesLeft (share : ℕ) (w : EventWorker) : ℕ :=
  w.sessions.total (fun _ s => s.triesLeft) + maxRetryPerSession * w.ctl.fresh share
    + (w.ctl.held.map Session.triesLeft).getD 0

/-- No session has more retries than are allowed, and one that is created again has had one. -/
structure RetriesBounded (w : EventWorker) : Prop where
  sessions : w.sessions.All fun _ s => s.retries ≤ maxRetryPerSession
  held : ∀ old ∈ w.ctl.held, old.retries ≤ maxRetryPerSession
  reconnecting : ∀ old events, w.ctl = .reconnecting old events → 1 ≤ old.retries

theorem retriesBounded_of_held {w' : EventWorker}
    (hs : w'.sessions.All fun _ s => s.retries ≤ maxRetryPerSession) (hh : w'.ctl.held = none) :
    w'.RetriesBounded := by
  refine ⟨hs, fun old hold => ?_, fun old events hc => ?_⟩
  · rw [hh] at hold
    cases hold
  · rw [hc] at hh
    cases hh

variable {share : ℕ} {ms : List RetryMark} {ops : List Op} {w' : EventWorker}

theorem Tries.retriesBounded (h : Tries share env w ms ops w') (hb : w.RetriesBounded) :
    w'.RetriesBounded := by
  cases h with
  | stays _ hs hh _ _ _ =>
    refine retriesBounded_of_held ?_ hh
    rw [hs]
    exact hb.sessions
  | sweeps todo _ => exact retriesBounded_of_held hb.sessions rfl
  | picks _ _ _ => exact retriesBounded_of_held hb.sessions rfl
  | creates _ hs hzero hc' =>
    refine retriesBounded_of_held ?_ (by rw [hc']; rfl)
    rw [hs]
    exact hb.sessions.insert (hzero.le.trans (Nat.zero_le _))
  | reopens hc hs hsame _ hc' =>
    refine retriesBounded_of_held ?_ (by rw [hc']; rfl)
    rw [hs]
    exact hb.sessions.insert (hsame.le.trans (hb.held _ (by rw [hc]; rfl)))
  | requests _ hl _ hs hsame _ hc' =>
    refine retriesBounded_of_held ?_ (by rw [hc']; rfl)
    rw [hs]
    exact hb.sessions.insert (hsame.le.trans (hb.sessions _ _ hl))
  | errs _ hl _ hs hc' =>
    refine ⟨?_, fun old hold => ?_, fun old events hctl => ?_⟩
    · rw [hs]
      exact hb.sessions.erase _
    · rw [hc'] at hold
      cases hold
      exact hb.sessions _ _ hl
    · rw [hc'] at hctl
      cases hctl
  | digests _ hl _ _ _ hretries hs hc' =>
    refine retriesBounded_of_held ?_ (by rw [hc']; rfl)
    rw [hs]
    refine (hb.sessions.erase _).insert ?_
    rcases hretries with hsame | ⟨hzero, -⟩
    · exact hsame.le.trans (hb.sessions _ _ hl)
    · exact hzero.le.trans (Nat.zero_le _)
  | retries _ hlt =>
    refine ⟨hb.sessions, fun old hold => ?_, fun old events hctl => ?_⟩
    · cases hold
      exact hlt
    · cases hctl
      exact Nat.le_add_left 1 _

end EventWorker

/-! ## The budget -/

/-- What a thread needs for its operations, if `rest` is to be left for what comes after them: a
retry costs one, and a completion gives three. -/
def retryBudget (rest : ℕ) (ops : List Op) : ℕ :=
  Budget.need (Op.adds .retried) (fun op => maxRetryPerSession * Op.adds .completed op) rest ops

theorem retryBudget_of_no_retry {ops : List Op} (h : owed .retried ops = 0) (rest : ℕ) :
    retryBudget rest ops = rest - maxRetryPerSession * owed .completed ops := by
  have hnone : ∀ op ∈ ops, Op.adds .retried op = 0 := by
    intro op hop
    exact Nat.eq_zero_of_le_zero (h ▸ List.single_le_sum (fun _ _ => Nat.zero_le _) _
      (List.mem_map_of_mem hop))
  refine (Budget.need_of_spends_nothing _ _ rest hnone).trans ?_
  rw [List.sum_map_mul_left]
  rfl

theorem retryBudget_le {ops : List Op} (h : owed .retried ops = 0) (rest : ℕ) :
    retryBudget rest ops ≤ rest := by
  rw [retryBudget_of_no_retry h]
  exact Nat.sub_le _ _

/-- Operations and then a retry. -/
theorem retryBudget_retry {ops : List Op} (h : owed .retried ops = 0) (rest : ℕ) :
    retryBudget rest (ops ++ [.add .retried 1]) ≤ rest + 1 := by
  have hlast : retryBudget rest [.add .retried 1] = rest + 1 := by
    simp [retryBudget, Budget.need_cons, Nat.add_comm]
  refine (Budget.need_append _ _ rest ops _).le.trans ?_
  exact (retryBudget_le h _).trans hlast.le

namespace EventWorker

variable {n : ℕ} {env : Env} {w w' : EventWorker} {share : ℕ} {ms : List RetryMark} {ops : List Op}

/-- **A retry is paid with one of the tries that are left**, and a completion with three. -/
theorem Tries.budget (h : Tries share env w ms ops w') :
    retryBudget (w'.triesLeft share) ops ≤ w.triesLeft share := by
  have hput := Table.total_insert_le fun (_ : ℕ) (s : Session) => s.triesLeft
  cases h with
  | stays hops hs hh hf _ _ =>
    refine (retryBudget_le hops _).trans ?_
    have hfresh := Nat.mul_le_mul_left maxRetryPerSession hf
    unfold triesLeft
    rw [hs, hh]
    dsimp only [Option.map_none, Option.getD_none]
    omega
  | sweeps todo hc =>
    unfold triesLeft
    rw [hc]
    exact le_rfl
  | picks hc _ _ =>
    unfold triesLeft
    rw [hc]
    exact le_rfl
  | @creates left id s _ hc hs _ hc' =>
    have hnew := s.triesLeft_le
    have htotal := hput w.sessions id s
    show w'.triesLeft share ≤ _
    unfold triesLeft
    rw [hs, hc, hc']
    simp only [EventCtl.fresh, EventCtl.held, Option.map_none, Option.getD_none, Nat.mul_add]
    omega
  | @reopens old s events id _ hc hs hsame _ hc' =>
    have hnew : s.triesLeft = old.triesLeft := by
      unfold Session.triesLeft
      rw [hsame]
    have htotal := hput w.sessions id s
    show w'.triesLeft share ≤ _
    unfold triesLeft
    rw [hs, hc, hc']
    simp only [EventCtl.fresh, EventCtl.held, Option.map_none, Option.map_some, Option.getD_none,
      Option.getD_some]
    omega
  | @requests id now todo s s' _ _ _ hc hl hops hs hsame _ hc' =>
    have hnew : s'.triesLeft = s.triesLeft := by
      unfold Session.triesLeft
      rw [hsame]
    have htotal := Table.total_insert (fun _ (s : Session) => s.triesLeft) w.sessions id s'
    rw [Table.weight_eq hl] at htotal
    refine (retryBudget_le hops _).trans ?_
    unfold triesLeft
    rw [hs, hc, hc']
    simp only [EventCtl.fresh, EventCtl.held, Option.map_none, Option.getD_none]
    omega
  | @errs ev events old _ _ hc hl hops hs hc' =>
    have htotal := Table.total_erase (fun _ (s : Session) => s.triesLeft) w.sessions ev.connId
    rw [Table.weight_eq hl] at htotal
    refine (retryBudget_le hops _).trans ?_
    unfold triesLeft
    rw [hs, hc, hc']
    simp only [EventCtl.fresh, EventCtl.held, Option.map_none, Option.map_some, Option.getD_none,
      Option.getD_some]
    omega
  | @digests ev events old s _ _ hc hl hops _ _ hretries hs hc' =>
    have htotal := Table.total_erase (fun _ (s : Session) => s.triesLeft) w.sessions ev.connId
    rw [Table.weight_eq hl] at htotal
    have hback := hput (w.sessions.erase ev.connId) s.connId s
    have hpaid : s.triesLeft ≤ old.triesLeft + maxRetryPerSession * owed .completed ops := by
      rcases hretries with hsame | ⟨-, hone⟩
      · unfold Session.triesLeft
        rw [hsame]
        exact Nat.le_add_right _ _
      · rw [hone]
        exact s.triesLeft_le.trans (Nat.le_add_left _ _)
    rw [retryBudget_of_no_retry hops]
    unfold triesLeft
    rw [hs, hc, hc']
    simp only [EventCtl.fresh, EventCtl.held, Option.map_none, Option.getD_none]
    omega
  | @retries old events hc hlt =>
    refine (retryBudget_retry (weigh_nil _) _).trans ?_
    have hnext : Session.triesLeft { old with retries := old.retries + 1 } + 1 = old.triesLeft := by
      unfold Session.triesLeft
      dsimp only
      omega
    unfold triesLeft
    rw [hc]
    simp only [goto, EventCtl.fresh, EventCtl.held, Option.map_some, Option.getD_some]
    omega

end EventWorker

/-! ## Slots -/

namespace Slot

/-- Everything a step can do to the retry count of a slot. -/
inductive Tries (s : Slot) : List Op → Slot → Prop
  | stays {ops : List Op} {s' : Slot} : owed .retried ops = 0 → s'.retry = s.retry →
      Tries s ops s'
  | resets {ops : List Op} {s' : Slot} : owed .retried ops = 0 → owed .completed ops = 1 →
      s'.retry = 0 → Tries s ops s'
  | retries {ops : List Op} {s' : Slot} : s.retry < maxRetryPerSession →
      owed .retried ops = 0 → s'.retry = s.retry + 1 → Tries s (ops ++ [.add .retried 1]) s'

variable {n : ℕ} {cfg : Config} {i : Fin n} {env : Env} {sh : Shared n} {s s' : Slot}
  {ops : List Op}

theorem owed_result (nowNs : ℕ) (result : Result) (status : ℤ) (ok : Bool) :
    owed .retried (resultOps nowNs result status ok) = 0 ∧
      owed .completed (resultOps nowNs result status ok) = 1 := by
  cases ok <;> simp [resultOps]

theorem performGet_tries (cfg : Config) (env : Env) (s : Slot) :
    Tries s (s.performGet cfg env).1 (s.performGet cfg env).2 := by
  unfold performGet
  dsimp only
  split_ifs with hok hlt
  · exact .resets (owed_result ..).1 (owed_result ..).2 rfl
  · exact .retries hlt (owed_result ..).1 rfl
  · exact .stays (owed_result ..).1 rfl

theorem slotStep_tries (cfg : Config) (i : Fin n) (env : Env) (sh : Shared n) (s : Slot) :
    Tries s (slotStep cfg i env sh s).2.1 (slotStep cfg i env sh s).2.2 := by
  by_cases hc : s.ctl = .performing
  · have hstep : slotStep cfg i env sh s =
        (sh, (s.performGet cfg env).1, (s.performGet cfg env).2) := by
      unfold slotStep
      rw [hc]
    rw [hstep]
    exact performGet_tries cfg env s
  · have hm := slotStep_move cfg i env sh s
    generalize slotStep cfg i env sh s = r at hm
    cases hm with
    | retried client _ hlt => exact @Tries.retries s [] _ hlt rfl rfl
    | gaveUp _ _ _ => exact .stays (by simp [giveUpOps]) rfl
    | performed _ _ _ _ _ hc' _ => exact absurd hc' hc
    | _ => exact .stays rfl rfl

/-- The retries that are possible without a completion. -/
def triesLeft (s : Slot) : ℕ := maxRetryPerSession - s.retry

theorem Tries.budget (h : Tries s ops s') : retryBudget s'.triesLeft ops ≤ s.triesLeft := by
  cases h with
  | stays hops hsame =>
    refine (retryBudget_le hops _).trans ?_
    unfold triesLeft
    rw [hsame]
  | resets hops hone hzero =>
    rw [retryBudget_of_no_retry hops, hone]
    unfold triesLeft
    omega
  | retries hlt hops hnext =>
    refine (retryBudget_retry hops _).trans ?_
    unfold triesLeft
    omega

end Slot

/-! ## Threads -/

/-- No retry count exceeds the maximum, and a retry that is about to be counted has one. -/
def Thread.RetriesBounded (t : Thread) : Prop :=
  match t.body with
  | .main _ => True
  | .event w => w.RetriesBounded
  | .slot s => s.retry ≤ maxRetryPerSession ∧ (.add .retried 1 ∈ t.ops → 1 ≤ s.retry)

/-- By how much `1U` is shifted for the backoff that the thread computes next. -/
def Thread.shift (t : Thread) : Option ℤ :=
  match t.body with
  | .main _ => none
  | .event w =>
    match w.ctl with
    | .reconnecting old _ => some (old.retries - 1)
    | _ => none
  | .slot s => if .add .retried 1 ∈ t.ops then some (s.retry - 1) else none

/-- The retries that are possible without a completion, `share` sessions being created. -/
def Body.triesLeft (share : ℕ) : Body → ℕ
  | .main _ => 0
  | .event w => w.triesLeft share
  | .slot s => s.triesLeft

theorem Thread.RetriesBounded.shift {t : Thread} (h : t.RetriesBounded) {a : ℤ}
    (ha : t.shift = some a) : a = 0 ∨ a = 1 ∨ a = 2 := by
  have hbound : ∀ r : ℕ, 1 ≤ r → r ≤ maxRetryPerSession → (r - 1 : ℤ) = 0 ∨ (r - 1 : ℤ) = 1 ∨
      (r - 1 : ℤ) = 2 := by
    unfold maxRetryPerSession
    omega
  obtain ⟨ops, body⟩ := t
  cases body with
  | main m => cases ha
  | event w =>
    have hb : w.RetriesBounded := h
    unfold Thread.shift at ha
    dsimp only at ha
    cases hc : w.ctl with
    | reconnecting old events =>
      rw [hc] at ha
      cases ha
      exact hbound _ (hb.reconnecting old events hc) (hb.held old (by rw [hc]; rfl))
    | _ =>
      rw [hc] at ha
      cases ha
  | slot s =>
    unfold Thread.shift at ha
    dsimp only at ha
    split_ifs at ha with hmem
    cases ha
    exact hbound _ (h.2 hmem) h.1

theorem Slot.Tries.retriesBounded {s s' : Slot} {ops : List Op} (h : s.Tries ops s')
    (hb : s.retry ≤ maxRetryPerSession) : Thread.RetriesBounded ⟨ops, .slot s'⟩ := by
  have hno : ∀ {ops : List Op}, owed .retried ops = 0 → .add .retried 1 ∉ ops := by
    intro ops hops hmem
    have hle : 1 ≤ owed .retried ops :=
      List.single_le_sum (fun _ _ => Nat.zero_le _) 1 (List.mem_map.mpr ⟨_, hmem, rfl⟩)
    omega
  cases h with
  | stays hops hsame => exact ⟨hsame.le.trans hb, fun hmem => absurd hmem (hno hops)⟩
  | resets hops _ hzero =>
    exact ⟨hzero.le.trans (Nat.zero_le _), fun hmem => absurd hmem (hno hops)⟩
  | retries hlt _ hnext => exact ⟨hnext.le.trans hlt, fun _ => hnext ▸ Nat.le_add_left 1 _⟩

/-- The retry of a slot that is about to be counted is the last of its operations. -/
theorem Thread.RetriesBounded.exec {n : ℕ} {sh : Shared n} {i : Option (Fin n)} {op : Op}
    {rest : List Op} {body : Body} {r : Shared n × List Op}
    (h : Thread.RetriesBounded ⟨op :: rest, body⟩) (hx : op.Exec sh rest i r) :
    Thread.RetriesBounded ⟨r.2, body⟩ := by
  cases body with
  | main m => trivial
  | event w => exact h
  | slot s =>
    refine ⟨h.1, fun hmem => h.2 ?_⟩
    cases hx with
    | record | recording => simpa using hmem
    | _ => exact List.mem_cons_of_mem _ hmem

namespace Engine

variable {cfg : Config} {beginNs : ℕ} {c : Conf cfg.threadCount}

section Step

variable {n : ℕ} {env : Env} {sh : Shared n}

theorem step_retriesBounded (i : Option (Fin n)) {t : Thread} (h : t.RetriesBounded) :
    (step cfg i env sh t).2.RetriesBounded := by
  obtain ⟨ops, body⟩ := t
  cases ops with
  | cons op rest => exact h.exec (execOp_exec i op rest sh)
  | nil =>
    cases i with
    | none => cases body <;> exact h
    | some i =>
      cases body with
      | main m => trivial
      | event w =>
        have hb : w.RetriesBounded := h
        exact (EventWorker.eventStep_tries cfg i env sh w).retriesBounded hb
      | slot s => exact (Slot.slotStep_tries cfg i env sh s).retriesBounded h.1

/-- What thread `i` needs for its retries, until it completes something more. -/
def retryShare (cfg : Config) (i : Option (Fin n)) (t : Thread) : ℕ :=
  retryBudget (t.body.triesLeft (i.elim 0 fun i => cfg.perWorker i)) t.ops

theorem op_retryShare {i : Option (Fin n)} {op : Op} {rest : List Op} {r : Shared n × List Op}
    (body : Body) (hx : op.Exec sh rest i r) :
    r.1.counters .retried + retryShare cfg i ⟨r.2, body⟩
        + maxRetryPerSession * sh.counters .completed
      ≤ sh.counters .retried + retryShare cfg i ⟨op :: rest, body⟩
        + maxRetryPerSession * r.1.counters .completed := by
  have hrest : (∀ c, owed c r.2 = owed c rest) ∧
      retryShare cfg i ⟨r.2, body⟩ = retryShare cfg i ⟨rest, body⟩ := by
    have hrecording : retryShare cfg i ⟨.recording :: rest, body⟩ =
        retryShare cfg i ⟨rest, body⟩ := by
      simp [retryShare, retryBudget, Budget.need_cons]
    cases hx with
    | record | recording => exact ⟨fun c => by simp, hrecording⟩
    | _ => exact ⟨fun _ => rfl, rfl⟩
  have hadds : ∀ c, r.1.counters c = sh.counters c + Op.adds c op := by
    intro c
    have hpays := hx.pays c
    have hcons : owed c (op :: rest) = Op.adds c op + owed c rest := weigh_cons _ _ _
    rw [hrest.1, hcons] at hpays
    omega
  have hbook : Op.adds .retried op + retryShare cfg i ⟨rest, body⟩ ≤
      retryShare cfg i ⟨op :: rest, body⟩ + maxRetryPerSession * Op.adds .completed op :=
    Budget.spends_add_need_le _ _ _ op rest
  rw [hrest.2, hadds, hadds, Nat.mul_add]
  omega

theorem step_retryShare (i : Option (Fin n)) (t : Thread) :
    (step cfg i env sh t).1.counters .retried + retryShare cfg i (step cfg i env sh t).2
        + maxRetryPerSession * sh.counters .completed
      ≤ sh.counters .retried + retryShare cfg i t
        + maxRetryPerSession * (step cfg i env sh t).1.counters .completed := by
  obtain ⟨ops, body⟩ := t
  cases ops with
  | cons op rest => exact op_retryShare body (execOp_exec i op rest sh)
  | nil =>
    cases i with
    | none =>
      cases body with
      | main m =>
        have hf := mainStep_frame cfg env sh m
        have hops : owed .retried (mainStep cfg env sh m).2.1 = 0 := by
          rcases hf.ops with hops | hops <;> rw [hops] <;> rfl
        have hshare := retryBudget_le hops 0
        show (mainStep cfg env sh m).1.counters .retried + retryBudget 0 (mainStep cfg env sh m).2.1
            + _ ≤ _ + 0 + maxRetryPerSession * (mainStep cfg env sh m).1.counters .completed
        rw [hf.counters]
        omega
      | _ => exact le_rfl
    | some i =>
      cases body with
      | main m => exact le_rfl
      | event w =>
        have hm := EventWorker.eventStep_move cfg i env sh w
        have hbudget := (EventWorker.eventStep_tries cfg i env sh w).budget
        show (eventStep cfg i env sh w).1.counters .retried
            + retryBudget ((eventStep cfg i env sh w).2.2.triesLeft (cfg.perWorker i))
                (eventStep cfg i env sh w).2.1 + _
          ≤ sh.counters .retried + w.triesLeft (cfg.perWorker i)
            + maxRetryPerSession * (eventStep cfg i env sh w).1.counters .completed
        rw [hm.counters (by decide), hm.counters (by decide)]
        omega
      | slot s =>
        have hm := Slot.slotStep_move cfg i env sh s
        have hbudget := (Slot.slotStep_tries cfg i env sh s).budget
        show (slotStep cfg i env sh s).1.counters .retried
            + retryBudget (slotStep cfg i env sh s).2.2.triesLeft (slotStep cfg i env sh s).2.1 + _
          ≤ sh.counters .retried + s.triesLeft
            + maxRetryPerSession * (slotStep cfg i env sh s).1.counters .completed
        rw [hm.counters (by decide), hm.counters (by decide)]
        omega

end Step

/-! ## Runs -/

theorem Runs.retriesBounded (h : Runs cfg beginNs c) (i : Option (Fin cfg.threadCount)) :
    (c.locals i).RetriesBounded := by
  refine h.local_invariant (J := Thread.RetriesBounded) i ?_ fun c e _ _ ht =>
    step_retriesBounded i ht
  cases i with
  | none => trivial
  | some i =>
    show Thread.RetriesBounded ⟨[], initialBody cfg i⟩
    unfold initialBody
    split_ifs
    · exact ⟨Nat.zero_le _, fun hmem => (by cases hmem)⟩
    · exact EventWorker.retriesBounded_of_held (Table.all_empty _) rfl
    · exact EventWorker.retriesBounded_of_held (Table.all_empty _) rfl

theorem retryShare_init (cfg : Config) (beginNs : ℕ) :
    ∑ i, retryShare cfg i ((init cfg beginNs).locals i) =
      maxRetryPerSession * cfg.concurrency.toNat := by
  have hmain : retryShare cfg (none : Option (Fin cfg.threadCount))
      ((init cfg beginNs).locals none) = 0 := rfl
  rw [Fintype.sum_option, hmain, Nat.zero_add]
  by_cases hp : cfg.protocol = .https
  · have hslot : ∀ i : Fin cfg.threadCount,
        retryShare cfg (some i) ((init cfg beginNs).locals (some i)) = maxRetryPerSession := by
      intro i
      show retryBudget ((initialBody cfg i).triesLeft _) [] = _
      rw [initialBody, if_pos hp]
      rfl
    have hcount : cfg.threadCount = cfg.concurrency.toNat := by
      unfold Config.threadCount
      rw [if_pos hp]
    rw [Finset.sum_const_nat fun i _ => hslot i, Finset.card_univ, Fintype.card_fin, hcount,
      Nat.mul_comm]
  · have hworker : ∀ i : Fin cfg.threadCount,
        retryShare cfg (some i) ((init cfg beginNs).locals (some i)) =
          maxRetryPerSession * cfg.perWorker i := by
      intro i
      show retryBudget ((initialBody cfg i).triesLeft _) [] = _
      rw [initialBody, if_neg hp]
      split_ifs with hnone
      · rw [hnone]
        rfl
      · show 0 + maxRetryPerSession * cfg.perWorker i + 0 = _
        omega
    have hcount : cfg.threadCount = cfg.workers := by
      unfold Config.threadCount
      rw [if_neg hp]
    rw [Finset.sum_congr rfl fun i _ => hworker i, ← Finset.mul_sum]
    congr 1
    rw [← cfg.sum_perWorker]
    exact Fintype.sum_equiv (finCongr hcount) _ _ fun _ => rfl

/-- **The retries of a run.** Each completion allows three more than the connections at first. -/
theorem Runs.retried_le (h : Runs cfg beginNs c) :
    c.shared.counters .retried ≤ 3 * (cfg.concurrency.toNat + c.shared.counters .completed) := by
  have haccount := h.account_le (v := fun sh => sh.counters .retried)
    (u := fun sh => maxRetryPerSession * (cfg.concurrency.toNat + sh.counters .completed))
    (p := retryShare cfg) (q := fun _ _ => 0)
    (by
      rw [retryShare_init, Finset.sum_const_zero]
      exact (Nat.zero_add _).le)
    fun c i e _ _ => by
      have hstep := @step_retryShare cfg _ e c.shared i (c.locals i)
      simp only [Nat.mul_add]
      omega
  have hthree : maxRetryPerSession = 3 := rfl
  rw [hthree] at haccount
  simp only [Finset.sum_const_zero, Nat.add_zero] at haccount
  omega

end Engine

end TitanBench
