import TitanBench.EngineInStep

/-!
# The reports of a run

The main thread reports while the workers go on: it reads the counters one after the other, drains
the collector and takes a snapshot. So no report shows the state of one moment.

* `Main.Move` — everything one step of the main thread can do.
* `Reporting` — what holds of the report under way and of those made so far.
* `reports_ordered` — a report shows no less than those before it, and counts what their statistics
  show.
* `reports_sound` — the parts of one report agree but for one request of each worker.
-/

namespace TitanBench

open Threads

variable {n : ℕ}

/-! ## The main thread -/

/-- A report is under way. -/
def MainCtl.collects : MainCtl → Bool
  | .reading .. | .drainStart (.report _) | .draining (.report _) | .snapshot _ => true
  | _ => false

/-- The report under way has read counter `c`. -/
def MainCtl.hasRead (c : Counter) : MainCtl → Bool
  | .reading todo _ => c ∉ todo
  | ctl => ctl.collects

/-- The drain of the report under way has begun. -/
def MainCtl.drains : MainCtl → Bool
  | .draining (.report _) | .snapshot _ => true
  | _ => false

/-- Everything one step of the main thread can do, and the reports it hands out. -/
inductive Main.Move (sh : Shared n) (m : Main) :
    Shared n × List Op × Main → List EngineReport → Prop
  | aside {ctl : MainCtl} (ops : List Op) : m.ctl.collects = false → ctl.collects = false →
      (ctl = .done → m.ctl = .done) → Move sh m (sh, ops, m.goto ctl) []
  | begins (final : Bool) : m.ctl.collects = false →
      Move sh m (sh, [], m.goto (.reading Counter.all final)) []
  | reads {c : Counter} {todo : List Counter} {final : Bool} : m.ctl = .reading (c :: todo) final →
      Move sh m
        (sh, [],
          { m with
            report := { m.report with
              counters := Function.update m.report.counters c (sh.counters c) }
            ctl := .reading todo final }) []
  | timed {final : Bool} (elapsedMs : ℕ) : m.ctl = .reading [] final →
      Move sh m
        (sh, [],
          { m with
            report := { m.report with elapsedMs := elapsedMs }
            ctl := .drainStart (.report final) }) []
  | drains {after : AfterDrain} (nowNs : ℕ) :
      m.ctl = .drainStart after ∨ m.ctl = .draining after ∧ sh.stats.drain ≠ .idle →
      Move sh m
        ({ sh with stats := sh.stats.drainStep nowNs }, [], m.goto (.draining after)) []
  | drained {final : Bool} : m.ctl = .draining (.report final) → sh.stats.drain = .idle →
      Move sh m (sh, [], m.goto (.snapshot final)) []
  | reports {final : Bool} {ctl : MainCtl} (nowNs laterNs : ℕ) : m.ctl = .snapshot final →
      ctl = (if final then .done else .loopTop) →
      Move sh m
        (sh, [],
          { m with
            report := { m.report with
              stats := snapshot sh.stats.qpsMask sh.stats.startNs nowNs laterNs sh.stats.totals }
            ctl := ctl })
        [{ m.report with
          stats := snapshot sh.stats.qpsMask sh.stats.startNs nowNs laterNs sh.stats.totals }]

/-- The report that the next step of the main thread hands out. -/
def Main.reported (cfg : Config) (env : Env) (sh : Shared n) (m : Main) : List EngineReport :=
  match m.ctl with
  | .snapshot _ => [(mainStep cfg env sh m).2.2.report]
  | _ => []

theorem mainStep_move (cfg : Config) (env : Env) (sh : Shared n) (m : Main) :
    m.Move sh (mainStep cfg env sh m) (m.reported cfg env sh) := by
  unfold Main.reported mainStep
  cases hc : m.ctl with
  | loopTop =>
    have haside : m.ctl.collects = false := by rw [hc]; rfl
    dsimp only
    split_ifs <;> exact .aside _ haside rfl fun h => nomatch h
  | test =>
    have haside : m.ctl.collects = false := by rw [hc]; rfl
    dsimp only
    split_ifs
    · exact .aside _ haside rfl fun h => nomatch h
    · exact .begins _ haside
    · exact .aside _ haside rfl fun h => nomatch h
  | reading todo final =>
    cases todo with
    | nil => exact .timed _ hc
    | cons c todo => exact .reads hc
  | drainStart after => exact .drains _ (.inl hc)
  | draining after =>
    have hgoto : m = m.goto (.draining after) := by rw [← hc]; rfl
    dsimp only
    cases hd : sh.stats.drain with
    | idle =>
      cases after with
      | loop => exact .aside _ (by rw [hc]; rfl) rfl fun h => nomatch h
      | report final => exact .drained hc hd
    | _ =>
      have hmove := @Main.Move.drains n sh m after env.nowNs
        (.inr ⟨hc, by rw [hd]; exact fun h => nomatch h⟩)
      rwa [← hgoto] at hmove
  | snapshot final => exact .reports _ _ hc rfl
  | joining =>
    have haside : m.ctl.collects = false := by rw [hc]; rfl
    have hgoto : m = m.goto .joining := by rw [← hc]; rfl
    dsimp only
    split_ifs
    · exact .begins _ haside
    · have hmove := @Main.Move.aside n sh m .joining [] haside rfl fun h => nomatch h
      rwa [← hgoto] at hmove
  | done =>
    have hgoto : m = m.goto .done := by rw [← hc]; rfl
    have hmove := @Main.Move.aside n sh m .done [] (by rw [hc]; rfl) rfl fun _ => hc
    rwa [← hgoto] at hmove

/-! ## Reports -/

/-- A report after `r` shows no less, and counts what the statistics of `r` show. -/
structure EngineReport.Precedes (r r' : EngineReport) : Prop where
  counters : ∀ c, r.counters c ≤ r'.counters c
  stats : r.stats.Le r'.stats
  counted : ∀ k : Tally, r.stats.recorded k ≤ r'.counters k.counter

/-- The parts of a report agree but for `slack` requests. -/
structure EngineReport.Sound (slack : ℕ) (r : EngineReport) : Prop where
  settled : r.counters .completed ≤ r.counters .succeeded + r.counters .failed + slack
  recorded : r.counters .completed ≤ r.stats.totalRequests + r.stats.droppedSamples + slack
  outcomes : r.stats.totalRequests = r.stats.successRequests + r.stats.failedRequests

/-- What the report under way will show of counter `c` at least. -/
def Main.shows (sh : Shared n) (m : Main) (c : Counter) : ℕ :=
  if m.ctl.hasRead c then m.report.counters c else sh.counters c

/-- The report under way: what it has read is no more than there is, and by the time it has read
the completed requests it has marks to be reached. -/
structure Collecting (sh : Shared n) (m : Main) : Prop where
  order : ∀ todo final, m.ctl = .reading todo final → todo <:+ Counter.all
  behind : ∀ c, m.report.counters c ≤ sh.counters c
  settled : m.ctl.hasRead .completed = true →
    m.report.counters .completed ≤ m.shows sh .succeeded + m.shows sh .failed + n
  recorded : m.ctl.hasRead .completed = true → ∃ mark : Fin n → Mark,
    m.report.counters .completed ≤ ∑ i, ((mark i).accepted + (mark i).rejected) + n ∧
      sh.stats.Reached mark ∧ (m.ctl.drains = true → sh.stats.CatchingUp mark)

/-- The reports made so far: none shows more than the one under way will. -/
structure Reported (sh : Shared n) (m : Main) (log : List EngineReport) : Prop where
  sorted : log.Pairwise EngineReport.Precedes
  sound : ∀ r ∈ log, r.Sound n
  counters : ∀ r ∈ log, ∀ c, r.counters c ≤ m.report.counters c
  stats : ∀ r ∈ log, ∀ mask start now later,
    r.stats.Le (snapshot mask start now later sh.stats.totals)
  counted : ∀ r ∈ log, ∀ k : Tally, r.stats.recorded k ≤ m.shows sh k.counter
  last : m.ctl = .done → log.getLast? = some m.report

/-! ## Steps -/

section Steps

variable {sh sh' : Shared n} {m m' : Main} {r : Shared n × List Op × Main}
  {log out : List EngineReport}

theorem MainCtl.hasRead_of_not_collects {ctl : MainCtl} (h : ctl.collects = false) (c : Counter) :
    ctl.hasRead c = false := by
  cases ctl <;> first | exact h | cases h

/-- After a report the main thread goes on with its loop, or is done. -/
theorem MainCtl.not_collects_reported {final : Bool} {ctl : MainCtl}
    (h : ctl = if final then .done else .loopTop) : ctl.collects = false := by
  rw [h]
  cases final <;> rfl

theorem Main.shows_of_read {c : Counter} (h : m.ctl.hasRead c = true) :
    m.shows sh c = m.report.counters c := if_pos h

theorem Main.shows_of_unread {c : Counter} (h : m.ctl.hasRead c = false) :
    m.shows sh c = sh.counters c := if_neg (by rw [h]; exact Bool.false_ne_true)

theorem Main.shows_le_other (hcounters : ∀ c, sh.counters c ≤ sh'.counters c) (c : Counter) :
    m.shows sh c ≤ m.shows sh' c := by
  unfold Main.shows
  split_ifs
  · exact le_rfl
  · exact hcounters c

/-- What the report under way will show never shrinks. -/
theorem Main.Move.shows_le (hm : m.Move sh r out) (h : Collecting sh m) (c : Counter) :
    m.shows sh c ≤ r.2.2.shows r.1 c := by
  cases hm with
  | aside ops hold hnew =>
    rw [shows_of_unread (MainCtl.hasRead_of_not_collects hold c),
      shows_of_unread (MainCtl.hasRead_of_not_collects hnew c)]
  | begins final hold =>
    rw [shows_of_unread (MainCtl.hasRead_of_not_collects hold c), shows_of_unread]
    exact decide_eq_false (not_not_intro (Counter.mem_all c))
  | @reads d todo final hc =>
    by_cases hd : c = d
    · -- The counter that is read is shown as it is.
      subst hd
      rw [shows_of_unread (by rw [hc]; simp [MainCtl.hasRead])]
      unfold Main.shows
      split_ifs
      · show sh.counters c ≤ Function.update m.report.counters c (sh.counters c) c
        rw [Function.update_self]
      · exact le_rfl
    · unfold Main.shows
      rw [hc]
      simp [MainCtl.hasRead, hd, Function.update_of_ne]
  | timed elapsedMs hc =>
    rw [shows_of_read (by rw [hc]; rfl), shows_of_read rfl]
  | @drains after nowNs hc =>
    have hsame : m.ctl.hasRead c = (MainCtl.draining after).hasRead c := by
      rcases hc with hc | ⟨hc, -⟩ <;> rw [hc]
      cases after <;> rfl
    unfold Main.shows
    rw [hsame]
    exact le_rfl
  | drained hc =>
    rw [shows_of_read (by rw [hc]; rfl), shows_of_read rfl]
    exact le_rfl
  | @reports final ctl nowNs laterNs hc hctl =>
    rw [shows_of_read (by rw [hc]; rfl), shows_of_unread
      (MainCtl.hasRead_of_not_collects (MainCtl.not_collects_reported hctl) c)]
    exact h.behind c

/-! ### The report under way -/

theorem Collecting.settled_le (h : Collecting sh m) (hread : m.ctl.hasRead .completed = true)
    (hshows : ∀ c, m.shows sh c ≤ m'.shows sh' c) :
    m.report.counters .completed ≤ m'.shows sh' .succeeded + m'.shows sh' .failed + n := by
  have hsettled := h.settled hread
  have hsucceeded := hshows .succeeded
  have hfailed := hshows .failed
  omega

/-- The steps of the workers. -/
theorem Collecting.other (h : Collecting sh m) {i : Fin n}
    (hcounters : ∀ c, sh.counters c ≤ sh'.counters c)
    (hturn : sh.stats.Turn (some i) sh'.stats) : Collecting sh' m := by
  refine ⟨h.order, fun c => (h.behind c).trans (hcounters c), fun hread => ?_, fun hread => ?_⟩
  · exact h.settled_le hread (Main.shows_le_other hcounters)
  · obtain ⟨mark, hle, hreached, hcatching⟩ := h.recorded hread
    exact ⟨mark, hle, hturn.reached hreached, fun hd => hturn.catchingUp (hcatching hd)⟩

/-- Nothing has been collected yet. -/
theorem Collecting.fresh (hbehind : ∀ c, m.report.counters c ≤ sh.counters c)
    (horder : ∀ todo final, m.ctl = .reading todo final → todo <:+ Counter.all)
    (hread : m.ctl.hasRead .completed = false) : Collecting sh m := by
  have hno : ¬ m.ctl.hasRead .completed = true := by
    rw [hread]
    exact Bool.false_ne_true
  exact ⟨horder, hbehind, fun h => absurd h hno, fun h => absurd h hno⟩

/-- What is read anew is no less than what was read before. -/
theorem Collecting.counters_reads (h : Collecting sh m) (c d : Counter) :
    m.report.counters d ≤ Function.update m.report.counters c (sh.counters c) d := by
  by_cases hd : d = c
  · rw [hd, Function.update_self]
    exact h.behind c
  · rw [Function.update_of_ne hd]

theorem mem_of_suffix_completed {todo : List Counter} (h : .completed :: todo <:+ Counter.all) :
    .succeeded ∈ todo ∧ .failed ∈ todo := by
  have htails : .completed :: todo ∈ Counter.all.tails := (List.mem_tails _ _).mpr h
  have htodo : todo = [.succeeded, .failed, .retried, .bytesSent, .bytesReceived] := by
    simpa [Counter.all] using htails
  rw [htodo]
  exact ⟨by decide, by decide⟩

theorem Collecting.reads (hstep : InStep sh) (h : Collecting sh m) {c : Counter}
    {todo : List Counter} {final : Bool} (hc : m.ctl = .reading (c :: todo) final)
    (hm' : m' = { m with
      report := { m.report with counters := Function.update m.report.counters c (sh.counters c) }
      ctl := .reading todo final }) : Collecting sh m' := by
  have hm : m.Move sh (sh, [], m') [] := hm' ▸ .reads hc
  have hshows := hm.shows_le h
  have hsuffix := h.order _ _ hc
  have hreport : ∀ d, m'.report.counters d
      = Function.update m.report.counters c (sh.counters c) d := fun d => by rw [hm']
  have hctl : m'.ctl = .reading todo final := by rw [hm']
  have hbefore : c ≠ .completed → m'.ctl.hasRead .completed = true →
      m.ctl.hasRead .completed = true := by
    intro hne hread
    rw [hctl] at hread
    rw [hc]
    simpa [MainCtl.hasRead, Ne.symm hne] using hread
  refine ⟨?order, ?behind, ?settled, ?recorded⟩
  case order =>
    intro todo' final' hc'
    rw [hctl] at hc'
    cases hc'
    exact (List.suffix_cons _ _).trans hsuffix
  case behind =>
    intro d
    rw [hreport]
    by_cases hd : d = c
    · rw [hd, Function.update_self]
    · rw [Function.update_of_ne hd]
      exact h.behind d
  case settled =>
    intro hread
    rw [hreport]
    by_cases hcompleted : c = .completed
    · -- The outcomes are read later, and count at least what they count now.
      subst hcompleted
      obtain ⟨hsucceeded, hfailed⟩ := mem_of_suffix_completed hsuffix
      have hlater : ∀ d ∈ todo, m'.shows sh d = sh.counters d := fun d hd =>
        Main.shows_of_unread (by rw [hctl]; simp [MainCtl.hasRead, hd])
      rw [Function.update_self, hlater _ hsucceeded, hlater _ hfailed]
      exact hstep.settled
    · rw [Function.update_of_ne (Ne.symm hcompleted)]
      exact h.settled_le (hbefore hcompleted hread) hshows
  case recorded =>
    intro hread
    rw [hreport]
    have hdrains : m'.ctl.drains ≠ true := by rw [hctl]; exact Bool.false_ne_true
    by_cases hcompleted : c = .completed
    · subst hcompleted
      rw [Function.update_self]
      exact ⟨sh.stats.marks, hstep.marked, Collector.reached_marks _, fun hd => absurd hd hdrains⟩
    · rw [Function.update_of_ne (Ne.symm hcompleted)]
      obtain ⟨mark, hle, hreached, -⟩ := h.recorded (hbefore hcompleted hread)
      exact ⟨mark, hle, hreached, fun hd => absurd hd hdrains⟩

/-- Once the counters are read, only the marks are left to be looked after. -/
theorem Collecting.carry (h : Collecting sh m) (hread : m.ctl.hasRead .completed = true)
    (hcounters : sh'.counters = sh.counters) (hreport : m'.report.counters = m.report.counters)
    (horder : ∀ todo final, m'.ctl ≠ .reading todo final)
    (hshows : ∀ c, m.shows sh c ≤ m'.shows sh' c)
    (hmarks : ∀ mark : Fin n → Mark, sh.stats.Reached mark →
      (m.ctl.drains = true → sh.stats.CatchingUp mark) →
      sh'.stats.Reached mark ∧ (m'.ctl.drains = true → sh'.stats.CatchingUp mark)) :
    Collecting sh' m' := by
  refine ⟨fun todo final hc => absurd hc (horder todo final), ?_, fun _ => ?_, fun _ => ?_⟩
  · rw [hreport, hcounters]
    exact h.behind
  · rw [hreport]
    exact h.settled_le hread hshows
  · obtain ⟨mark, hle, hreached, hcatching⟩ := h.recorded hread
    rw [hreport]
    exact ⟨mark, hle, hmarks mark hreached hcatching⟩

theorem Collecting.step (hstep : InStep sh) (hmain : MainOk sh m) (h : Collecting sh m)
    (hm : m.Move sh r out) : Collecting r.1 r.2.2 := by
  have hshows := hm.shows_le h
  cases hm with
  | @aside ctl ops hold hnew =>
    refine .fresh h.behind (fun todo final hc => ?_) (MainCtl.hasRead_of_not_collects hnew _)
    rw [show ctl = MainCtl.reading todo final from hc] at hnew
    cases hnew
  | begins final hold =>
    refine .fresh h.behind (fun todo final hc => ?_) rfl
    cases hc
    exact List.suffix_rfl
  | reads hc => exact h.reads hstep hc rfl
  | timed elapsedMs hc =>
    refine h.carry (by rw [hc]; rfl) rfl rfl (fun _ _ h => nomatch h) hshows ?_
    exact fun mark hreached _ => ⟨hreached, fun hd => nomatch hd⟩
  | @drains after nowNs hc =>
    cases after with
    | loop => exact .fresh h.behind (fun _ _ hc => nomatch hc) rfl
    | report final =>
      have hread : m.ctl.hasRead .completed = true := by
        rcases hc with hc | ⟨hc, -⟩ <;> rw [hc] <;> rfl
      refine h.carry hread rfl rfl (fun _ _ h => nomatch h) hshows ?_
      intro mark hreached hcatching
      refine ⟨hreached.drainStep nowNs, fun _ => ?_⟩
      rcases hc with hc | ⟨hc, hrun⟩
      · have hidle := hmain.idle (by rw [hc]; exact fun _ h => nomatch h)
        exact Collector.catchingUp_begin hstep.collector hreached hidle nowNs
      · exact (hcatching (by rw [hc]; rfl)).drainStep hstep.collector hreached hrun nowNs
  | drained hc =>
    refine h.carry (by rw [hc]; rfl) rfl rfl (fun _ _ h => nomatch h) hshows ?_
    exact fun mark hreached hcatching => ⟨hreached, fun _ => hcatching (by rw [hc]; rfl)⟩
  | @reports final ctl nowNs laterNs hc hctl =>
    have hnone := MainCtl.not_collects_reported hctl
    refine .fresh h.behind (fun todo final hc => ?_) (MainCtl.hasRead_of_not_collects hnone _)
    rw [show ctl = MainCtl.reading todo final from hc] at hnone
    cases hnone

/-! ### The reports made so far -/

/-- Nothing has been reported yet. -/
theorem Reported.fresh (hdone : m.ctl ≠ .done) : Reported sh m [] := by
  refine ⟨.nil, ?_, ?_, ?_, ?_, fun h => absurd h hdone⟩
  all_goals exact fun r hr => absurd hr List.not_mem_nil

theorem Reported.keep (h : Reported sh m log) {i : Option (Fin n)}
    (hturn : sh.stats.Turn i sh'.stats)
    (hcounters : ∀ c, m.report.counters c ≤ m'.report.counters c)
    (hshows : ∀ c, m.shows sh c ≤ m'.shows sh' c)
    (hlast : m'.ctl = .done → m.ctl = .done ∧ m'.report = m.report) : Reported sh' m' log := by
  refine ⟨h.sorted, h.sound, fun r hr c => (h.counters r hr c).trans (hcounters c),
    fun r hr mask start now later => ?_, fun r hr k => (h.counted r hr k).trans (hshows _),
    fun hdone => ?_⟩
  · exact (h.stats r hr mask start now later).trans
      (hturn.snapshot_le mask mask start start now now later later)
  · obtain ⟨hold, hreport⟩ := hlast hdone
    rw [hreport]
    exact h.last hold

/-- The report that is handed out. -/
theorem Collecting.sound (hstep : InStep sh) (hmain : MainOk sh m) (h : Collecting sh m)
    {final : Bool} (hc : m.ctl = .snapshot final) (mask start now later : ℕ) :
    EngineReport.Sound n
      { m.report with stats := snapshot mask start now later sh.stats.totals } := by
  have hread : ∀ c, m.ctl.hasRead c = true := fun c => by rw [hc]; rfl
  have hidle := hmain.idle (by rw [hc]; exact fun _ h => nomatch h)
  refine ⟨?settled, ?recorded, ?outcomes⟩
  case settled =>
    have hsettled := h.settled (hread _)
    rwa [Main.shows_of_read (hread _), Main.shows_of_read (hread _)] at hsettled
  case recorded =>
    obtain ⟨mark, hle, -, hcatching⟩ := h.recorded (hread _)
    have hsum := (hcatching (by rw [hc]; rfl)).sum_le hstep.collector hidle
    exact hle.trans (Nat.add_le_add_right hsum n)
  case outcomes =>
    have hcounts := hstep.collector.counts
    rw [snapshot_totalRequests, snapshot_successRequests, snapshot_failedRequests, hcounts.total,
      hcounts.success, hcounts.failed]
    exact (Collector.countP_add_countP_not _ _).symm

theorem Reported.step (hstep : InStep sh) (hmain : MainOk sh m) (hcol : Collecting sh m)
    (h : Reported sh m log) (hm : m.Move sh r out) : Reported r.1 r.2.2 (log ++ out) := by
  have hshows := hm.shows_le hcol
  have hsame : sh.stats.Turn none sh.stats := .same _
  cases hm with
  | aside ops hold hnew hdone =>
    rw [List.append_nil]
    exact h.keep hsame (fun _ => le_rfl) hshows fun hd => ⟨hdone hd, rfl⟩
  | begins | timed | drained =>
    rw [List.append_nil]
    exact h.keep hsame (fun _ => le_rfl) hshows fun hd => nomatch hd
  | @reads c todo final hc =>
    rw [List.append_nil]
    exact h.keep hsame (hcol.counters_reads c) hshows fun hd => nomatch hd
  | drains nowNs =>
    rw [List.append_nil]
    exact h.keep (.drain nowNs) (fun _ => le_rfl) hshows fun hd => nomatch hd
  | @reports final ctl nowNs laterNs hc hctl =>
    have hnone := MainCtl.not_collects_reported hctl
    refine ⟨?sorted, ?sound, ?counters, ?stats, ?counted, ?last⟩
    case sorted =>
      refine List.pairwise_append.mpr ⟨h.sorted, List.pairwise_singleton _ _, ?_⟩
      intro old hold new hnew
      rw [List.mem_singleton.mp hnew]
      refine ⟨h.counters old hold, h.stats old hold _ _ _ _, fun k => ?_⟩
      have hcounted := h.counted old hold k
      rwa [Main.shows_of_read (by rw [hc]; rfl)] at hcounted
    case sound =>
      intro r hr
      rcases List.mem_append.mp hr with hold | hnew
      · exact h.sound r hold
      · rw [List.mem_singleton.mp hnew]
        exact hcol.sound hstep hmain hc _ _ _ _
    case counters =>
      intro r hr c
      rcases List.mem_append.mp hr with hold | hnew
      · exact h.counters r hold c
      · rw [List.mem_singleton.mp hnew]
    case stats =>
      intro r hr mask start now later
      rcases List.mem_append.mp hr with hold | hnew
      · exact h.stats r hold mask start now later
      · rw [List.mem_singleton.mp hnew]
        exact snapshot_le_same _ _ _ _ _ _ _ _ _
    case counted =>
      intro r hr k
      rcases List.mem_append.mp hr with hold | hnew
      · exact (h.counted r hold k).trans (hshows _)
      · rw [List.mem_singleton.mp hnew, Main.shows_of_unread
          (MainCtl.hasRead_of_not_collects hnone _)]
        exact hstep.recorded k _ _ _ _
    case last => exact fun _ => List.getLast?_concat

end Steps

/-! ## Runs -/

namespace Engine

/-- The report that the next step of a thread hands out. -/
def reportsOf (cfg : Config) (i : Option (Fin n)) (env : Env) (sh : Shared n) (t : Thread) :
    List EngineReport :=
  match t.ops, i, t.body with
  | [], none, .main m => m.reported cfg env sh
  | _, _, _ => []

def reports (cfg : Config) (c : Conf n) (i : Option (Fin n)) (env : Env) : List EngineReport :=
  reportsOf cfg i env c.shared (c.locals i)

/-- The runs of `cfg` with the reports they hand out, the final one included. -/
abbrev ReportRun (cfg : Config) (beginNs : ℕ) (c : Conf cfg.threadCount)
    (log : List EngineReport) : Prop :=
  Logged (step cfg) (reports cfg) (fun _ _ _ => True) (init cfg beginNs) c log

variable {cfg : Config} {beginNs : ℕ} {c : Conf cfg.threadCount} {log : List EngineReport}

theorem ReportRun.runs (h : ReportRun cfg beginNs c log) : Runs cfg beginNs c := Logged.reach h

theorem Move.counters_mono {env : Env} {sh : Shared n} {i : Option (Fin n)} {t : Thread}
    {r : Shared n × Thread} (hm : Move cfg env sh i t r) (k : Counter) :
    sh.counters k ≤ r.1.counters k := by
  by_cases hk : k = .started
  · subst hk
    exact hm.started_le
  · exact hm.counters_le hk

/-- A step of the main thread. -/
theorem reporting_own {env : Env} {sh : Shared n} {m : Main} {ops : List Op}
    (hstep : InStep sh) (hmain : MainOk sh m) (hops : MainOps ops)
    (h : Collecting sh m ∧ Reported sh m log) {m' : Main}
    (hbody : (step cfg none env sh ⟨ops, .main m⟩).2.body = .main m') :
    Collecting (step cfg none env sh ⟨ops, .main m⟩).1 m' ∧
      Reported (step cfg none env sh ⟨ops, .main m⟩).1 m'
        (log ++ reportsOf cfg none env sh ⟨ops, .main m⟩) := by
  obtain ⟨hcol, hrep⟩ := h
  cases ops with
  | nil =>
    have hm := mainStep_move cfg env sh m
    cases hbody
    exact ⟨hcol.step hstep hmain hm, hrep.step hstep hmain hcol hm⟩
  | cons op rest =>
    obtain rfl := hops op List.mem_cons_self
    cases hbody
    rw [show reportsOf cfg none env sh ⟨.storeStop :: rest, .main m⟩ = [] from rfl,
      List.append_nil]
    exact ⟨⟨hcol.order, hcol.behind, hcol.settled, hcol.recorded⟩,
      ⟨hrep.sorted, hrep.sound, hrep.counters, hrep.stats, hrep.counted, hrep.last⟩⟩

theorem ReportRun.reporting (h : ReportRun cfg beginNs c log) :
    ∀ m, (c.locals none).body = .main m → Collecting c.shared m ∧ Reported c.shared m log := by
  refine h.thread_invariant
    (R := fun sh t log => ∀ m, t.body = .main m → Collecting sh m ∧ Reported sh m log)
    none ?_ ?_ ?_ ?_
  · intro m hbody
    cases hbody
    refine ⟨.fresh (fun _ => le_rfl) (fun _ _ hc => nomatch hc) rfl, ?_⟩
    exact .fresh fun hdone => nomatch hdone
  · intro c log e hlog _ hinv m' hbody
    have hruns : Runs cfg beginNs c := Logged.reach hlog
    have hops := hruns.mainOps
    obtain ⟨m, hm⟩ := hruns.main_body
    have hmain := hruns.mainOk hm
    have hold := hinv m hm
    unfold reports
    generalize c.locals none = t at hm hops hbody
    obtain ⟨ops, body⟩ := t
    subst hm
    exact reporting_own hruns.inStep hmain hops hold hbody
  · intro c log j e _ _ hj hinv m hbody
    obtain ⟨i, rfl⟩ := Option.ne_none_iff_exists'.mp hj
    obtain ⟨hcol, hrep⟩ := hinv m hbody
    have hmove := step_move cfg (some i) e c.shared (c.locals (some i))
    refine ⟨hcol.other hmove.counters_mono hmove.turn, ?_⟩
    exact hrep.keep hmove.turn (fun _ => le_rfl) (Main.shows_le_other hmove.counters_mono)
      fun hdone => ⟨hdone, rfl⟩
  · intro c j e hj
    obtain ⟨i, rfl⟩ := Option.ne_none_iff_exists'.mp hj
    unfold reports reportsOf
    split <;> first | rfl | contradiction

/-- **The reports of a run are in order.** No counter and no statistic goes back from one report to
a later one, and a later report counts every request whose sample an earlier one shows. The last of
them is the final report. -/
theorem reports_ordered (h : ReportRun cfg beginNs c log) :
    log.Pairwise EngineReport.Precedes ∧
      ∀ m, (c.locals none).body = .main m → m.ctl = .done → log.getLast? = some m.report := by
  obtain ⟨m, hm⟩ := h.runs.main_body
  exact ⟨(h.reporting m hm).2.sorted, fun m' hm' => (h.reporting m' hm').2.last⟩

/-! ### One udp request -/

/-- The worker is about to count its request as completed when the main thread begins a report, and
about to record it when the main thread reads the counters and drains. -/
def reportedSchedule : List (Option (Fin oneUdpRequest.threadCount) × Env) :=
  let worker : Option (Fin oneUdpRequest.threadCount) × Env := (some ⟨0, Nat.one_pos⟩, {})
  let main : Option (Fin oneUdpRequest.threadCount) × Env := (none, { progress := true })
  List.replicate 13 worker ++ List.replicate 2 main ++ [worker] ++ List.replicate 24 main
    ++ List.replicate 20 worker ++ List.replicate 40 main

def reportedLog : List EngineReport :=
  (init oneUdpRequest 0).log (step oneUdpRequest) (reports oneUdpRequest) reportedSchedule

theorem reportRun_udp : ReportRun oneUdpRequest 0
    ((init oneUdpRequest 0).run (step oneUdpRequest) reportedSchedule) reportedLog :=
  logged_run _ (runOk_of_forall (fun _ _ _ => trivial) _)

/-- The completed requests and the statistics of the two reports. -/
theorem reportedLog_eq : reportedLog.map (fun r => (r.counters .completed, r.stats.totalRequests,
    r.stats.droppedSamples)) = [(1, 0, 0), (1, 1, 0)] := by
  decide +kernel

theorem reports_ordered_udp_request : reportedLog.length = 2 ∧
    reportedLog.Pairwise EngineReport.Precedes ∧
    ∃ m : Main, reportedLog.getLast? = some m.report ∧ m.ctl = .done := by
  obtain ⟨m, hm⟩ := reportRun_udp.runs.main_body
  obtain ⟨hpairwise, hlast⟩ := reports_ordered reportRun_udp
  have hdone : m.ctl = .done := by
    have hctl : (((init oneUdpRequest 0).run (step oneUdpRequest)
        reportedSchedule).locals none).body.mainCtl = some .done := by decide +kernel
    rw [hm] at hctl
    exact Option.some.inj hctl
  exact ⟨by simpa using congrArg List.length reportedLog_eq, hpairwise, m, hlast m hm hdone, hdone⟩

/-- **The parts of a report agree but for one request of each worker**, though the workers go on
while it is made: what it shows as completed has an outcome, and is recorded or dropped. -/
theorem reports_sound (h : ReportRun cfg beginNs c log) {r : EngineReport} (hr : r ∈ log) :
    r.Sound cfg.threadCount := by
  obtain ⟨m, hm⟩ := h.runs.main_body
  exact (h.reporting m hm).2.sound r hr

/-- The one worker's request is missing from the statistics. -/
theorem reports_sound_udp_request : ∃ r ∈ reportedLog, r.counters .completed = 1 ∧
    r.stats.totalRequests + r.stats.droppedSamples = 0 ∧ r.Sound 1 := by
  obtain ⟨r, rest, hlog, hr, -⟩ := List.map_eq_cons_iff.mp reportedLog_eq
  have hmem : r ∈ reportedLog := hlog ▸ List.mem_cons_self
  simp only [Prod.mk.injEq] at hr
  obtain ⟨hcompleted, htotal, hdropped⟩ := hr
  exact ⟨r, hmem, hcompleted, by rw [htotal, hdropped], reports_sound reportRun_udp hmem⟩

end Engine

end TitanBench
