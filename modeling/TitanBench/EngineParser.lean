import TitanBench.EngineSessions
import TitanBench.HttpChunking

/-!
# The parser a request starts with

A session's parser is reset when its connection is created and when a response ends. It is not
reset when the response is rejected, nor when bytes come in while nothing is in flight.

* `Thread.taints` — the thread is about to handle a data event that leaves such a parser behind;
  `taints_iff` says that it does.
* `Move.clean` — every other step leaves a fresh parser with every session without a request.
* `parser_fresh` — the runs without such events.
* `rejected_response` — a run with one: after a response that is rejected, the next request on
  the connection starts with the parser in its error state.
-/

namespace TitanBench

open Threads

/-! ## Sessions without a request -/

/-- The session is ready for the next request. -/
def Session.Fresh (s : Session) : Prop := s.inFlight = false → s.parser = {}

/-- The data event to be handled next leaves its session without a request and with a parser that
is not fresh: `Feed` fails, or nothing is in flight and the bytes do not end a response. -/
def EventWorker.taints (w : EventWorker) : Bool :=
  match w.ctl with
  | .handling (ev :: _) =>
    match w.sessions.lookup ev.connId with
    | some old =>
      let (parser, ok) := old.parser.feed ev.data
      !ev.isError && (!ok || (!old.inFlight && !parser.done && decide (parser ≠ {})))
    | none => false
  | _ => false

def Thread.taints (t : Thread) : Bool :=
  match t with
  | ⟨[], .event w⟩ => w.taints
  | _ => false

theorem taints_handling {w : EventWorker} {ev : RecvEvent} {events : List RecvEvent}
    {old : Session} (hc : w.ctl = .handling (ev :: events))
    (hl : w.sessions.lookup ev.connId = some old) (herr : ev.isError = false) :
    w.taints = (!(old.parser.feed ev.data).2 || (!old.inFlight
      && !(old.parser.feed ev.data).1.done && decide ((old.parser.feed ev.data).1 ≠ {}))) := by
  simp [EventWorker.taints, hc, hl, herr]

/-- A parser that has rejected its input is not fresh. -/
theorem feed_ne_fresh {p : ResponseParser} {data : Bytes} (h : (p.feed data).2 = false) :
    (p.feed data).1 ≠ {} := by
  intro hfresh
  rw [ResponseParser.feed_snd, hfresh] at h
  exact absurd h (by decide)

/-- The condition is exact: it says whether the session is ready after the event. -/
theorem taints_iff {cfg : Config} (hp : cfg.protocol = .http) {env : Env} {w : EventWorker}
    {ev : RecvEvent} {events : List RecvEvent} {old : Session}
    (hc : w.ctl = .handling (ev :: events)) (hl : w.sessions.lookup ev.connId = some old)
    (herr : ev.isError = false) :
    w.taints = false ↔ (EventWorker.dataEvent cfg env ev.data old).2.Fresh := by
  rw [taints_handling hc hl herr]
  have hd := EventWorker.dataEvent_digested cfg env ev.data old
  generalize EventWorker.dataEvent cfg env ev.data old = r at hd
  cases hd with
  | other hne => exact absurd hp hne
  | rejected _ hok =>
    have hne := feed_ne_fresh hok
    simp [hok, Session.Fresh, hne]
  | finished _ hok hdone => simp [hok, hdone, Session.Fresh]
  | awaited _ hok hdone => simp [hok, hdone, Session.Fresh]

/-! ## What a worker keeps -/

namespace EventWorker

/-- Sessions are entered under their own ids, those without a request are fresh, and the send loop
has picked one of these. -/
structure Clean (w : EventWorker) : Prop where
  keyed : w.sessions.All fun id s => s.connId = id
  fresh : w.sessions.All fun _ s => s.Fresh
  picked : ∀ id s, w.picked = some id → w.sessions.lookup id = some s → s.inFlight = false

variable {w : EventWorker}

theorem clean_empty {w : EventWorker} (h : w.sessions = ∅) : w.Clean := by
  refine ⟨?_, ?_, fun id s _ hs => ?_⟩
  · rw [h]
    exact Table.all_empty _
  · rw [h]
    exact Table.all_empty _
  · rw [h] at hs
    cases hs

/-- The sessions stay, and so does what was picked. -/
theorem Clean.same {w' : EventWorker} (h : w.Clean) (hs : w'.sessions = w.sessions)
    (hp : w'.picked = none ∨ w'.picked = w.picked) : w'.Clean := by
  refine ⟨hs ▸ h.keyed, hs ▸ h.fresh, fun id s hid hl => ?_⟩
  rcases hp with hp | hp
  · rw [hp] at hid
    cases hid
  · exact h.picked id s (hp ▸ hid) (hs ▸ hl)

theorem Clean.insert {w' : EventWorker} {id : ℕ} {s : Session} {sessions : Table ℕ Session}
    (hk : sessions.All fun id s => s.connId = id) (hf : sessions.All fun _ s => s.Fresh)
    (hs : w'.sessions = sessions.insert id s) (hid : s.connId = id) (hfresh : s.Fresh)
    (hp : w'.picked = none) : w'.Clean := by
  refine ⟨?_, ?_, fun id s hid _ => ?_⟩
  · rw [hs]
    exact hk.insert hid
  · rw [hs]
    exact hf.insert hfresh
  · rw [hp] at hid
    cases hid

variable {cfg : Config} {n : ℕ} {i : Fin n} {env : Env} {sh : Shared n}
  {r : Shared n × List Op × EventWorker}

/-- A data event puts no request in flight. -/
theorem dataEvent_inFlight {data : Bytes} {old : Session} (h : old.inFlight = false) :
    (dataEvent cfg env data old).2.inFlight = false := by
  have hd := dataEvent_digested cfg env data old
  generalize dataEvent cfg env data old = r at hd
  cases hd with
  | other => exact h
  | awaited => exact h
  | _ => rfl

theorem Move.clean (hp : cfg.protocol = .http) (hm : w.Move cfg i env sh r) (h : w.Clean)
    (hok : w.taints = false) : r.2.2.Clean := by
  cases hm with
  | goes hg =>
    cases hg with
    | @pick now id todo s hc hl hidle =>
      refine ⟨h.keyed, h.fresh, fun id' s' hid hl' => ?_⟩
      cases hid
      rw [show w.sessions.lookup id = some s' from hl'] at hl
      cases hl
      exact hidle
    | _ => exact h.same rfl (.inl rfl)
  | opened session hopens =>
    refine .insert h.keyed h.fresh rfl rfl (fun _ => rfl) ?_
    rcases hopens.next with ⟨left, rfl⟩ | ⟨events, rfl⟩ <;> rfl
  | acquires hc _ => exact h.same rfl (.inr (by simp [EventWorker.picked, goto, hc]))
  | granted hc _ => exact h.same rfl (.inr (by simp [EventWorker.picked, hc]))
  | waits token hc => exact h.same rfl (.inr (by simp [EventWorker.picked, goto, hc]))
  | waited token hc => exact h.same rfl (.inr (by simp [EventWorker.picked, goto, hc]))
  | requested hc hl _ _ =>
    have hkey := h.keyed _ _ hl
    refine .insert h.keyed h.fresh rfl hkey (fun hin => ?_) rfl
    cases hin
  | @errored ev events old hc hl herr =>
    refine ⟨h.keyed.erase _, h.fresh.erase _, fun id s hid _ => ?_⟩
    cases hid
  | @received ev events old hc hl herr =>
    exact .insert (h.keyed.erase _) (h.fresh.erase _) rfl rfl
      ((taints_iff hp hc hl herr).mp hok) rfl
  | _ => exact h.same rfl (.inl rfl)

/-- A step puts a request in flight on session `id`, which is `s` after it. -/
structure PutsInFlight (before after : Table ℕ Session) (id : ℕ) (s : Session) : Prop where
  session : after.lookup id = some s
  inFlight : s.inFlight = true
  idle : ∀ old, before.lookup id = some old → old.inFlight = false

/-- Only the send loop puts requests in flight, and it does so on a session it has picked. -/
theorem Move.putsInFlight (hm : w.Move cfg i env sh r) (h : w.Clean) {id : ℕ} {s : Session}
    (hput : PutsInFlight w.sessions r.2.2.sessions id s) : s.parser = {} := by
  obtain ⟨hafter, hin, hbefore⟩ := hput
  have hsame : w.sessions.lookup id ≠ some s := by
    intro hl
    rw [hbefore s hl] at hin
    cases hin
  cases hm with
  | opened session hopens =>
    by_cases hid : id = (submitConnection cfg env.submit w.net).2.2
    · subst hid
      rw [AList.lookup_insert] at hafter
      cases hafter
      rfl
    · rw [AList.lookup_insert_ne hid] at hafter
      exact absurd hafter hsame
  | @requested id' now todo s' hc hl _ _ =>
    by_cases hid : id = id'
    · subst hid
      rw [AList.lookup_insert] at hafter
      cases hafter
      have hidle := h.picked id s' (by simp [EventWorker.picked, hc]) hl
      exact h.fresh id s' hl hidle
    · rw [AList.lookup_insert_ne hid] at hafter
      exact absurd hafter hsame
  | @errored ev events old hc hl herr =>
    by_cases hid : id = ev.connId
    · subst hid
      rw [AList.lookup_erase] at hafter
      cases hafter
    · rw [AList.lookup_erase_ne hid] at hafter
      exact absurd hafter hsame
  | @received ev events old hc hl herr =>
    have hkey : (dataEvent cfg env ev.data old).2.connId = ev.connId :=
      (dataEvent_connId cfg env ev.data old).trans (h.keyed _ _ hl)
    dsimp only at hafter
    rw [hkey] at hafter
    by_cases hid : id = ev.connId
    · subst hid
      rw [AList.lookup_insert] at hafter
      cases hafter
      rw [dataEvent_inFlight (hbefore old hl)] at hin
      cases hin
    · rw [AList.lookup_insert_ne hid, AList.lookup_erase_ne hid] at hafter
      exact absurd hafter hsame
  | _ => exact absurd hafter hsame

end EventWorker

namespace Body

/-- The sessions of an event-driven worker. -/
def sessions : Body → Table ℕ Session
  | .event w => w.sessions
  | _ => ∅

def Clean : Body → Prop
  | .event w => w.Clean
  | _ => True

end Body

namespace Engine

variable {cfg : Config} {n : ℕ} {env : Env} {sh : Shared n}

/-! ## Runs that leave no parser behind -/

theorem Move.clean (hp : cfg.protocol = .http) {i : Option (Fin n)} {t : Thread}
    {r : Shared n × Thread} (hm : Move cfg env sh i t r) (h : t.body.Clean)
    (hok : t.taints = false) : r.2.body.Clean := by
  cases hm with
  | op => exact h
  | main => trivial
  | event hm => exact hm.clean hp h hok
  | slot => trivial
  | stay => exact h

/-- The steps that handle no event as in `Thread.taints`. -/
def Untainted (c : Conf n) (i : Option (Fin n)) (_ : Env) : Prop := (c.locals i).taints = false

instance (c : Conf n) (i : Option (Fin n)) (e : Env) : Decidable (Untainted c i e) :=
  inferInstanceAs (Decidable (_ = _))

theorem clean_init (cfg : Config) (beginNs : ℕ) (i : Option (Fin cfg.threadCount)) :
    ((init cfg beginNs).locals i).body.Clean := by
  cases i with
  | none => trivial
  | some i =>
    show (initialBody cfg i).Clean
    unfold initialBody
    split_ifs
    · trivial
    · exact EventWorker.clean_empty rfl
    · exact EventWorker.clean_empty rfl

/-- **Every request starts with a fresh parser.** With http, in every run whose data events leave
no session behind that has no request and a parser that is not fresh, a step that puts a request
in flight leaves the session's parser in its initial state. -/
theorem parser_fresh (cfg : Config) (hp : cfg.protocol = .http) {beginNs : ℕ}
    {c : Conf cfg.threadCount} (h : Reach (step cfg) Untainted (init cfg beginNs) c)
    (i : Option (Fin cfg.threadCount)) (env : Env) {id : ℕ} {s : Session}
    (hput : EventWorker.PutsInFlight (c.locals i).body.sessions
      ((c.step (step cfg) i env).locals i).body.sessions id s) : s.parser = {} := by
  have hclean := h.local_invariant (J := fun t => t.body.Clean) i (clean_init cfg beginNs i)
    fun c e _ hok ht => (step_move cfg i e c.shared (c.locals i)).clean hp ht hok
  have hm := step_move cfg i env c.shared (c.locals i)
  rw [Conf.step_local_self] at hput
  generalize step cfg i env c.shared (c.locals i) = r at hm hput
  generalize c.locals i = t at hm hput hclean
  have hstill : ¬ EventWorker.PutsInFlight t.body.sessions t.body.sessions id s := by
    intro hput
    have hin := hput.idle s hput.session
    rw [hput.inFlight] at hin
    cases hin
  cases hm with
  | op => exact absurd hput hstill
  | main => exact absurd hput hstill
  | event hm => exact hm.putsInFlight hclean hput
  | slot => exact absurd hput hstill
  | stay => exact absurd hput hstill

/-! ## A response that is rejected -/

/-- The first request was answered by `reply`, and the worker is about to send the second one. -/
def answered (reply : Bytes) : Conf twoRequests.threadCount :=
  (init twoRequests 0).run (step twoRequests) (exchange [reply] 17)

/-- The sessions of the worker, and those after its next step. -/
def sessionsOf (c : Conf twoRequests.threadCount) : Table ℕ Session :=
  (c.locals firstWorker).body.sessions

def nextSessionsOf (c : Conf twoRequests.threadCount) : Table ℕ Session :=
  sessionsOf (c.step (step twoRequests) firstWorker {})

/-- After a proper response the second request starts with a fresh parser. -/
theorem parser_fresh_second_request :
    ∃ s, EventWorker.PutsInFlight (sessionsOf (answered okResponse))
      (nextSessionsOf (answered okResponse)) 1 s ∧ s.parser = {} := by
  have hrun : RunOk (step twoRequests) Untainted (init twoRequests 0)
      (exchange [okResponse] 17) := by
    decide +kernel
  have hidle : (AList.lookup 1 (sessionsOf (answered okResponse))).map (·.inFlight)
      = some false := by decide +kernel
  have hnext : (AList.lookup 1 (nextSessionsOf (answered okResponse))).map (·.inFlight)
      = some true := by decide +kernel
  obtain ⟨s, hs, hin⟩ := Option.map_eq_some_iff.mp hnext
  have hput : EventWorker.PutsInFlight (sessionsOf (answered okResponse))
      (nextSessionsOf (answered okResponse)) 1 s :=
    ⟨hs, hin, fun old hold => by simpa [hold] using hidle⟩
  exact ⟨s, hput, parser_fresh twoRequests rfl (reach_run _ hrun) firstWorker {} hput⟩

/-- The first response is rejected, and the second request starts with the parser in its error
state. -/
theorem rejected_response :
    ¬ ∀ c, Runs twoRequests 0 c → ∀ i env id s,
      EventWorker.PutsInFlight (c.locals i).body.sessions
        ((c.step (step twoRequests) i env).locals i).body.sessions id s → s.parser = {} := by
  intro h
  have hidle : (AList.lookup 1 (sessionsOf (answered (ascii "nonsense\r\n")))).map (·.inFlight)
      = some false := by decide +kernel
  have hnext : (AList.lookup 1 (nextSessionsOf (answered (ascii "nonsense\r\n")))).map
      (fun s => (s.inFlight, s.parser.state)) = some (true, .error) := by decide +kernel
  obtain ⟨s, hs, hstate⟩ := Option.map_eq_some_iff.mp hnext
  have hput : EventWorker.PutsInFlight (sessionsOf (answered (ascii "nonsense\r\n")))
      (nextSessionsOf (answered (ascii "nonsense\r\n"))) 1 s :=
    ⟨hs, congrArg Prod.fst hstate, fun old hold => by simpa [hold] using hidle⟩
  have hfresh := h (answered (ascii "nonsense\r\n")) (reachable_run _) firstWorker {} 1 s hput
  rw [hfresh] at hstate
  have herr : ParserState.statusLine = .error := congrArg Prod.snd hstate
  cases herr

end Engine

end TitanBench
