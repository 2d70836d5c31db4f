import TitanBench.EngineParser
import TitanBench.EngineVerdict

/-!
# Responses in pieces

What the event loop makes of the bytes of a response depends on how they are cut into data events
only through the pieces that end the response, or are rejected, before the last byte has come.

* `Effect` — what a session and the counters become when the bytes leave the parser as it is.
* `EventWorker.handleAll_effect` — pieces none of which ends the response early have the effect of
  all bytes at once.
* `Runs.parsers_ended` — the parser of a session reports the end of a message exactly in `done`.
* `segmentation_iff` — the main result.
-/

namespace TitanBench

open Threads

/-! ## The parser -/

namespace ResponseParser

/-- The parser looks at no further byte. -/
def Finished (p : ResponseParser) : Prop := p.state = .done ∨ p.state = .error

instance (p : ResponseParser) : Decidable p.Finished := inferInstanceAs (Decidable (_ ∨ _))

theorem Same.symm {p q : ResponseParser} (h : Same p q) : Same q p := by
  refine ⟨h.state.symm, h.response.symm, h.body.symm, h.done.symm, h.errorMessage.symm, ?_⟩
  intro hd he
  exact (h.pending (h.state ▸ hd) (h.state ▸ he)).symm

theorem Same.refl (p : ResponseParser) : Same p p := same_of_settle rfl

theorem Same.finished {p q : ResponseParser} (h : Same p q) : p.Finished ↔ q.Finished := by
  rw [Finished, Finished, h.state]

/-- A parser that still takes bytes is known in full. -/
theorem Same.eq_of_open {p q : ResponseParser} (h : Same p q) (hopen : ¬ p.Finished) : p = q := by
  have hpending := h.pending (fun hd => hopen (.inl hd)) fun he => hopen (.inr he)
  obtain ⟨hstate, hresponse, hbody, -, hmsg, -⟩ := h
  cases p
  cases q
  simp_all

/-- What ends the response still does with more bytes behind it. -/
theorem finished_append {p : ResponseParser} {s : Bytes} (h : (p.feed s).1.Finished) (t : Bytes) :
    Same (p.feed (s ++ t)).1 (p.feed s).1 := by
  have hsame := same_of_settle (feed_feed p s t)
  rw [feed_of_finished h] at hsame
  exact hsame.symm

theorem parseBody_state_ne {p : ResponseParser} (h : p.state = .body) :
    p.parseBody.1.state ≠ .statusLine := by
  rw [parseBody_eq]
  split_ifs <;> simp [waitBody, fillBody, h]

theorem feedHeaders_state_ne {p : ResponseParser} (h : p.state = .headers) :
    p.feedHeaders.1.state ≠ .statusLine := by
  cases hfind : Search.find crLfCrLf p.pending with
  | none => simp [feedHeaders, parseHeaders, hfind, h]
  | some pos =>
    rcases parseHeaders_cases hfind with ⟨q, msg, herr⟩ | ⟨q, hq, hbody⟩
    · have h0 := herr []
      rw [more_nil, more_nil] at h0
      simp [feedHeaders, h0]
    · have h0 := hbody []
      rw [more_nil, more_nil] at h0
      rw [feedHeaders_of_parseBody h0]
      exact parseBody_state_ne hq

/-- A fresh parser that still waits for its first line has kept all bytes. -/
theorem pending_of_statusLine {t : Bytes}
    (h : (({} : ResponseParser).feed t).1.state = .statusLine) :
    (({} : ResponseParser).feed t).1.pending = t := by
  rcases eq_or_ne t [] with rfl | ht
  · rfl
  rw [feed_statusLine rfl ht] at h ⊢
  cases hfind : Search.find crLf (more {} t).pending with
  | none =>
    have hwait : (more {} t).parseStatusLine = (more {} t, true) := by
      simp only [parseStatusLine, hfind]
    simp [feedStatusLine, hwait]
  | some pos =>
    rcases parseStatusLine_cases hfind with ⟨msg, herr⟩ | ⟨q, hq, hnext⟩
    · have h0 := herr []
      rw [more_nil, more_nil] at h0
      simp [feedStatusLine, h0] at h
    · have h0 := hnext []
      rw [more_nil, more_nil] at h0
      have hgoes : (more {} t).feedStatusLine = q.feedHeaders := by
        simp [feedStatusLine, h0, hq]
      rw [hgoes] at h
      exact absurd h (feedHeaders_state_ne hq)

/-- A parser that was fed something does not look fresh. -/
theorem not_same_fresh {t : Bytes} (ht : t ≠ []) : ¬ Same (({} : ResponseParser).feed t).1 {} := by
  intro hsame
  have hstate : (({} : ResponseParser).feed t).1.state = .statusLine := hsame.state
  have hpending := hsame.pending (by simp [hstate]) (by simp [hstate])
  rw [pending_of_statusLine hstate] at hpending
  exact ht hpending

end ResponseParser

open ResponseParser

/-! ## The effect of a response -/

/-- The bytes have left the parser of session `s` as `p`; `ops` and `s'` are the updates and the
session afterwards. -/
structure Effect (s : Session) (p : ResponseParser) (ops : List Op) (s' : Session) : Prop where
  completed : owed .completed ops = if p.Finished then 1 else 0
  succeeded : owed .succeeded ops =
    if p.state = .done ∧ 0 < p.response.statusCode ∧ p.response.statusCode < 400 then 1 else 0
  failed : owed .failed ops =
    if p.Finished ∧ ¬ (p.state = .done ∧ 0 < p.response.statusCode ∧ p.response.statusCode < 400)
    then 1 else 0
  inFlight : s'.inFlight = (s.inFlight && !decide p.Finished)
  parser : Same s'.parser (if p.state = .done then {} else p)

theorem Effect.congr {s s' : Session} {p q : ResponseParser} {ops : List Op}
    (h : Effect s p ops s') (hs : Same p q) : Effect s q ops s' := by
  obtain ⟨hcompleted, hsucceeded, hfailed, hin, hparser⟩ := h
  have hfinished : p.Finished = q.Finished := propext hs.finished
  simp only [hfinished] at hcompleted hfailed hin
  rw [hs.state, hs.response] at hsucceeded hfailed
  refine ⟨hcompleted, hsucceeded, hfailed, hin, ?_⟩
  rw [hs.state] at hparser
  split_ifs at hparser ⊢
  · exact hparser
  · exact hparser.trans hs

namespace EventWorker

/-- One data event. -/
theorem dataEvent_effect {cfg : Config} (hp : cfg.protocol = .http) (env : Env) (data : Bytes)
    {s : Session} (hended : s.parser.Ended) :
    Effect s (s.parser.feed data).1 (dataEvent cfg env data s).1 (dataEvent cfg env data s).2 := by
  have hsnd := feed_snd s.parser data
  have hdone := feed_ended hended data
  have hd := dataEvent_digested cfg env data s
  generalize dataEvent cfg env data s = r at hd
  cases hd with
  | other hne => exact absurd hp hne
  | rejected _ hfalse =>
    have hstate : (s.parser.feed data).1.state = .error := by simpa [hsnd] using hfalse
    have hfinished : (s.parser.feed data).1.Finished := .inr hstate
    constructor <;> simp [parseErrorOps, hstate, hfinished, Same.refl]
  | finished _ _ hmsg =>
    have hstate := hdone.mp hmsg
    have hfinished : (s.parser.feed data).1.Finished := .inl hstate
    constructor
    · simp [owed_response, hfinished]
    · simp [owed_response, hstate]
    · rw [owed_response]
      by_cases hok : 0 < (s.parser.feed data).1.response.statusCode ∧
          (s.parser.feed data).1.response.statusCode < 400 <;>
        simp [hstate, hfinished, hok]
    · simp [hfinished]
    · simp [hstate, Same.refl]
  | awaited _ htrue hmsg =>
    have hne : (s.parser.feed data).1.state ≠ .error := by simpa [hsnd] using htrue
    have hnd : (s.parser.feed data).1.state ≠ .done := by
      intro hstate
      rw [hdone.mpr hstate] at hmsg
      cases hmsg
    have hopen : ¬ (s.parser.feed data).1.Finished := by simp [Finished, hne, hnd]
    constructor <;> simp [hopen, hnd, Same.refl]

theorem dataEvent_ended (cfg : Config) (env : Env) (data : Bytes) {s : Session}
    (hended : s.parser.Ended) : (dataEvent cfg env data s).2.parser.Ended := by
  have hd := dataEvent_digested cfg env data s
  generalize dataEvent cfg env data s = r at hd
  cases hd with
  | other => exact hended
  | finished => exact ended_of_not rfl (fun h => nomatch h)
  | _ => exact feed_ended hended data

/-- While the parser waits, the session keeps what it was fed and nothing is counted. -/
theorem dataEvent_awaits {cfg : Config} (hp : cfg.protocol = .http) (env : Env) {data : Bytes}
    {s : Session} (hended : s.parser.Ended) (hopen : ¬ (s.parser.feed data).1.Finished) :
    dataEvent cfg env data s = ([], { s with parser := (s.parser.feed data).1 }) := by
  have hsnd := feed_snd s.parser data
  have hdone := feed_ended hended data
  have hd := dataEvent_digested cfg env data s
  generalize dataEvent cfg env data s = r at hd
  cases hd with
  | other hne => exact absurd hp hne
  | rejected _ hfalse => exact absurd (.inr (by simpa [hsnd] using hfalse)) hopen
  | finished _ _ hmsg => exact absurd (.inl (hdone.mp hmsg)) hopen
  | awaited => rfl

end EventWorker

/-! ## Pieces -/

/-- The data events bring `bytes`, in pieces that are not empty. -/
def Cuts (bytes : Bytes) (pieces : List (Env × Bytes)) : Prop :=
  (pieces.map (·.2)).flatten = bytes ∧ ∀ piece ∈ pieces, piece.2 ≠ []

theorem cuts_cons {bytes : Bytes} {piece : Env × Bytes} {pieces : List (Env × Bytes)} :
    Cuts bytes (piece :: pieces) ↔
      piece.2 ≠ [] ∧ ∃ rest, bytes = piece.2 ++ rest ∧ Cuts rest pieces := by
  simp only [Cuts, List.map_cons, List.flatten_cons, List.forall_mem_cons]
  constructor
  · rintro ⟨hflat, hne, hall⟩
    exact ⟨hne, _, hflat.symm, rfl, hall⟩
  · rintro ⟨hne, rest, rfl, rfl, hall⟩
    exact ⟨rfl, hne, hall⟩

theorem cuts_nil {bytes : Bytes} : Cuts bytes [] ↔ bytes = [] := by
  simp [Cuts, eq_comm]

/-- No bytes, no data event. -/
theorem Cuts.eq_nil {pieces : List (Env × Bytes)} (h : Cuts [] pieces) : pieces = [] := by
  cases pieces with
  | nil => rfl
  | cons piece pieces =>
    obtain ⟨hpiece, rest, happ, -⟩ := cuts_cons.mp h
    exact absurd (List.append_eq_nil_iff.mp happ.symm).1 hpiece

/-- The bytes of a data event are counted besides. -/
theorem Effect.received {s s' : Session} {p : ResponseParser} {ops : List Op}
    (h : Effect s p ops s') (size : ℕ) : Effect s p (.add .bytesReceived size :: ops) s' := by
  obtain ⟨hcompleted, hsucceeded, hfailed, hin, hparser⟩ := h
  exact ⟨by simpa using hcompleted, by simpa using hsucceeded, by simpa using hfailed, hin, hparser⟩

namespace EventWorker

/-- One data event of a session, the last one to be handled. -/
theorem handleAll_single {cfg : Config} (hp : cfg.protocol = .http) (env : Env) (data : Bytes)
    {w : EventWorker} {id : ℕ} {s : Session} (hl : w.sessions.lookup id = some s)
    (hid : s.connId = id) (hended : s.parser.Ended) :
    ∃ s', (w.handleAll cfg (dataEvents id [(env, data)])).2.sessions.lookup id = some s' ∧
      Effect s (s.parser.feed data).1 (w.handleAll cfg (dataEvents id [(env, data)])).1 s' := by
  obtain ⟨w', hnext, heq⟩ := handleAll_data cfg env data [] hl hid
  refine ⟨_, (congrArg (fun r => r.2.sessions.lookup id) heq).trans hnext, ?_⟩
  have hops : (w.handleAll cfg (dataEvents id [(env, data)])).1
      = .add .bytesReceived data.length :: (dataEvent cfg env data s).1 :=
    (congrArg Prod.fst heq).trans (by simp [handleAll])
  rw [hops]
  exact (dataEvent_effect hp env data hended).received _

/-- Pieces none of which ends the response early have the effect of all bytes at once. -/
theorem handleAll_effect {cfg : Config} (hp : cfg.protocol = .http) {id : ℕ} {bytes : Bytes}
    (pieces : List (Env × Bytes)) {w : EventWorker} {s : Session}
    (hl : w.sessions.lookup id = some s) (hid : s.connId = id) (hended : s.parser.Ended)
    (hcuts : Cuts bytes pieces) (hne : bytes ≠ [])
    (hwait : ∀ t u, t ≠ [] → u ≠ [] → t ++ u = bytes → ¬ (s.parser.feed t).1.Finished) :
    ∃ s', (w.handleAll cfg (dataEvents id pieces)).2.sessions.lookup id = some s' ∧
      Effect s (s.parser.feed bytes).1 (w.handleAll cfg (dataEvents id pieces)).1 s' := by
  induction pieces generalizing w s bytes with
  | nil => exact absurd (cuts_nil.mp hcuts) hne
  | cons piece pieces ih =>
    obtain ⟨env, data⟩ := piece
    obtain ⟨hdata, rest, rfl, hrest⟩ := cuts_cons.mp hcuts
    rcases eq_or_ne rest [] with rfl | hmore
    · rw [hrest.eq_nil, List.append_nil]
      exact handleAll_single hp env data hl hid hended
    · -- More is to come, so this piece leaves the parser waiting.
      have hopen := hwait data rest hdata hmore rfl
      obtain ⟨w', hnext, heq⟩ := handleAll_data cfg env data (dataEvents id pieces) hl hid
      rw [dataEvent_awaits hp env hended hopen] at hnext heq
      have hsame : ∀ t, Same ((s.parser.feed data).1.feed t).1 (s.parser.feed (data ++ t)).1 :=
        fun t => same_of_settle (feed_feed _ _ _)
      obtain ⟨s', hl', heffect⟩ := ih hnext hid (feed_ended hended data) hrest hmore fun t u ht hu
        htu hfinished => hwait (data ++ t) u (by simp [hdata]) hu (by simp [htu])
          ((hsame t).finished.mp hfinished)
      refine ⟨s', (congrArg (fun r => r.2.sessions.lookup id) heq).trans hl', ?_⟩
      have hops : (w.handleAll cfg (dataEvents id ((env, data) :: pieces))).1
          = .add .bytesReceived data.length :: (w'.handleAll cfg (dataEvents id pieces)).1 :=
        congrArg Prod.fst heq
      rw [hops]
      obtain ⟨hcompleted, hsucceeded, hfailed, hin, hparser⟩ :=
        (heffect.congr (hsame rest)).received data.length
      exact ⟨hcompleted, hsucceeded, hfailed, hin, hparser⟩

/-- Without http, data events change nothing but the bytes received. -/
theorem handleAll_other {cfg : Config} (hp : cfg.protocol ≠ .http) {id : ℕ}
    (pieces : List (Env × Bytes)) {w : EventWorker} {s : Session}
    (hl : w.sessions.lookup id = some s) (hid : s.connId = id) :
    (w.handleAll cfg (dataEvents id pieces)).2.sessions.lookup id = some s ∧
      ∀ c, c ≠ .bytesReceived → owed c (w.handleAll cfg (dataEvents id pieces)).1 = 0 := by
  induction pieces generalizing w with
  | nil => exact ⟨hl, fun _ _ => rfl⟩
  | cons piece pieces ih =>
    obtain ⟨env, data⟩ := piece
    obtain ⟨w', hnext, heq⟩ := handleAll_data cfg env data (dataEvents id pieces) hl hid
    have hdata : dataEvent cfg env data s = ([], s) := by
      rw [dataEvent, if_neg hp]
    rw [hdata] at hnext heq
    obtain ⟨hl', howed⟩ := ih hnext
    refine ⟨(congrArg (fun r => r.2.sessions.lookup id) heq).trans hl', fun c hc => ?_⟩
    refine (congrArg (fun r => owed c r.1) heq).trans ?_
    simpa [hc.symm] using howed c hc

end EventWorker

/-! ## Outcomes -/

/-- Two ways of handling some events count the same requests and leave session `id` in the same
state, as far as anyone can tell. -/
structure SameOutcome (id : ℕ) (r r' : List Op × EventWorker) : Prop where
  completed : owed .completed r.1 = owed .completed r'.1
  succeeded : owed .succeeded r.1 = owed .succeeded r'.1
  failed : owed .failed r.1 = owed .failed r'.1
  session : ∃ s s', r.2.sessions.lookup id = some s ∧ r'.2.sessions.lookup id = some s' ∧
    s.inFlight = s'.inFlight ∧ Same s.parser s'.parser

theorem Effect.sameOutcome {id : ℕ} {s s₁ s₂ : Session} {p : ResponseParser}
    {r r' : List Op × EventWorker} (h : Effect s p r.1 s₁) (h' : Effect s p r'.1 s₂)
    (hl : r.2.sessions.lookup id = some s₁) (hl' : r'.2.sessions.lookup id = some s₂) :
    SameOutcome id r r' := by
  refine ⟨h.completed.trans h'.completed.symm, h.succeeded.trans h'.succeeded.symm,
    h.failed.trans h'.failed.symm, s₁, s₂, hl, hl', h.inFlight.trans h'.inFlight.symm, ?_⟩
  exact h.parser.trans h'.parser.symm

namespace EventWorker

/-- A piece that ends the response too early shows: the next one is counted again, or is left in
the parser of the next response. -/
theorem not_sameOutcome {cfg : Config} (hp : cfg.protocol = .http) (env : Env) {t u : Bytes}
    (hu : u ≠ []) {w : EventWorker} {id : ℕ} {s : Session} (hl : w.sessions.lookup id = some s)
    (hid : s.connId = id) (hended : s.parser.Ended) (hfinished : (s.parser.feed t).1.Finished) :
    ¬ SameOutcome id (w.handleAll cfg (dataEvents id [(env, t ++ u)]))
      (w.handleAll cfg (dataEvents id [(env, t), (env, u)])) := by
  intro hsame
  obtain ⟨s₁, hl₁, hwhole⟩ := handleAll_single hp env (t ++ u) hl hid hended
  have hwhole := hwhole.congr (finished_append hfinished u)
  obtain ⟨w', hnext, heq⟩ := handleAll_data cfg env t (dataEvents id [(env, u)]) hl hid
  have hfirst := dataEvent_effect hp env t hended
  have hkey : (dataEvent cfg env t s).2.connId = id := (dataEvent_connId cfg env t s).trans hid
  obtain ⟨s₂, hl₂, hsecond⟩ :=
    handleAll_single hp env u hnext hkey (dataEvent_ended cfg env t hended)
  have hpair : owed .completed (w.handleAll cfg (dataEvents id [(env, t), (env, u)])).1
      = owed .completed (dataEvent cfg env t s).1
        + owed .completed (w'.handleAll cfg (dataEvents id [(env, u)])).1 := by
    refine (congrArg (fun r => owed .completed r.1) heq).trans ?_
    simp
  have hcount := hsame.completed
  rw [hpair, hwhole.completed, hfirst.completed, hsecond.completed, if_pos hfinished] at hcount
  -- The second piece is not counted, so the parser waits for more behind it.
  have hopen : ¬ ((dataEvent cfg env t s).2.parser.feed u).1.Finished := by
    intro hagain
    rw [if_pos hagain] at hcount
    omega
  have hparser := hfirst.parser
  by_cases hdone : (s.parser.feed t).1.state = .done
  · rw [if_pos hdone] at hparser
    have hfresh : (dataEvent cfg env t s).2.parser = {} :=
      hparser.eq_of_open (fun hf => by simpa [Finished] using hparser.finished.mp hf)
    rw [hfresh] at hsecond hopen
    obtain ⟨a, b, ha, hb, -, hab⟩ := hsame.session
    have hb₂ : b = s₂ := by
      have hlast := (congrArg (fun r => r.2.sessions.lookup id) heq).trans hl₂
      exact Option.some.inj (hb.symm.trans hlast)
    have ha₁ : a = s₁ := Option.some.inj (ha.symm.trans hl₁)
    subst ha₁ hb₂
    have hwaits := hsecond.parser
    rw [if_neg (fun hd => hopen (.inl hd))] at hwaits
    have hreset := hwhole.parser
    rw [if_pos hdone] at hreset
    exact not_same_fresh hu ((hwaits.symm.trans hab.symm).trans hreset)
  · -- A rejected response is rejected again.
    have herror : (s.parser.feed t).1.state = .error := hfinished.resolve_left hdone
    rw [if_neg hdone] at hparser
    have hstays := hparser.finished.mpr (.inr herror)
    rw [feed_of_finished hstays] at hopen
    exact hopen hstays

end EventWorker

/-! ## The sessions of a run -/

namespace EventWorker

variable {cfg : Config} {n : ℕ} {i : Fin n} {env : Env} {sh : Shared n} {w : EventWorker}
  {r : Shared n × List Op × EventWorker}

/-- The parser of every session reports the end of a message exactly in its state `done`. -/
def ParsersEnded (w : EventWorker) : Prop := w.sessions.All fun _ s => s.parser.Ended

theorem Move.parsersEnded (hm : w.Move cfg i env sh r) (h : w.ParsersEnded) :
    r.2.2.ParsersEnded := by
  cases hm with
  | opened session hopens => exact h.insert (ended_of_not rfl (fun hs => nomatch hs))
  | requested hc hl =>
    have hold := h _ _ hl
    exact h.insert hold
  | errored => exact h.erase _
  | received hc hl => exact (h.erase _).insert (dataEvent_ended cfg env _ (h _ _ hl))
  | _ => exact h

end EventWorker

namespace Engine

variable {cfg : Config} {beginNs : ℕ} {c : Conf cfg.threadCount}

theorem Runs.parsersEnded (h : Runs cfg beginNs c) (i : Option (Fin cfg.threadCount))
    {w : EventWorker} (hw : (c.locals i).body = .event w) : w.ParsersEnded := by
  refine h.local_invariant (J := fun t => ∀ w, t.body = .event w → w.ParsersEnded) i ?_ ?_ w hw
  · intro w hw
    cases i with
    | none => cases hw
    | some i =>
      have hbody : initialBody cfg i = .event w := hw
      unfold initialBody at hbody
      split_ifs at hbody <;> cases hbody <;> exact Table.all_empty _
  · intro c e _ _ ht w hw
    have hm := step_move cfg i e c.shared (c.locals i)
    generalize step cfg i e c.shared (c.locals i) = r at hm hw
    generalize c.locals i = t at hm ht
    cases hm with
    | op | stay => exact ht w hw
    | event hm =>
      cases hw
      exact hm.parsersEnded (ht _ rfl)
    | _ => cases hw

/-! ## Main result -/

open EventWorker

/-- **When the cut does not matter.** At any moment of a run, the bytes the server sends on the
connection of a session have the same outcome in any two ways of cutting them into data events
exactly when the protocol is not http, or no proper part of the bytes already completes the
response or is rejected. -/
theorem segmentation_iff (h : Runs cfg beginNs c) {i : Fin cfg.threadCount} {w : EventWorker}
    (hw : (c.locals (some i)).body = .event w) {id : ℕ} {s : Session}
    (hl : w.sessions.lookup id = some s) (bytes : Bytes) :
    (∀ cuts cuts', Cuts bytes cuts → Cuts bytes cuts' →
      SameOutcome id (w.handleAll cfg (dataEvents id cuts))
        (w.handleAll cfg (dataEvents id cuts'))) ↔
      cfg.protocol ≠ .http ∨
        ∀ t u, t ≠ [] → u ≠ [] → t ++ u = bytes → ¬ (s.parser.feed t).1.Finished := by
  have hended := h.parsersEnded (some i) hw id s hl
  have hid : s.connId = id := by
    have hseated := h.seated i
    rw [hw] at hseated
    exact hseated.keyed id s hl
  by_cases hp : cfg.protocol = .http
  · constructor
    · intro hsame
      right
      rintro t u ht hu rfl hfinished
      refine not_sameOutcome hp {} hu hl hid hended hfinished (hsame _ _ ?_ ?_)
      · simp [Cuts, ht]
      · simp [Cuts, ht, hu]
    · intro hwait cuts cuts' hcuts hcuts'
      have hwait := hwait.resolve_left (not_not.mpr hp)
      rcases eq_or_ne bytes [] with rfl | hne
      · rw [hcuts.eq_nil, hcuts'.eq_nil]
        exact ⟨rfl, rfl, rfl, s, s, hl, hl, rfl, Same.refl _⟩
      · obtain ⟨s₁, hl₁, heffect⟩ := handleAll_effect hp cuts hl hid hended hcuts hne hwait
        obtain ⟨s₂, hl₂, heffect'⟩ := handleAll_effect hp cuts' hl hid hended hcuts' hne hwait
        exact heffect.sameOutcome heffect' hl₁ hl₂
  · refine iff_of_true (fun cuts cuts' _ _ => ?_) (.inl hp)
    obtain ⟨hl₁, howed⟩ := handleAll_other hp cuts hl hid
    obtain ⟨hl₂, howed'⟩ := handleAll_other hp cuts' hl hid
    have hcount : ∀ k, k ≠ .bytesReceived →
        owed k (w.handleAll cfg (dataEvents id cuts)).1
          = owed k (w.handleAll cfg (dataEvents id cuts')).1 :=
      fun k hk => (howed k hk).trans (howed' k hk).symm
    exact ⟨hcount _ (fun hc => nomatch hc), hcount _ (fun hc => nomatch hc),
      hcount _ (fun hc => nomatch hc), s, s, hl₁, hl₂, rfl, Same.refl _⟩

/-! ## One request in flight -/

/-- The worker has sent the first of its requests and waits for the response. -/
def requestSent : Conf twoRequests.threadCount :=
  (init twoRequests 0).run (step twoRequests) (List.replicate 13 (firstWorker, {}))

theorem requestSent_session : ∃ w s, (requestSent.locals firstWorker).body = .event w ∧
    w.sessions.lookup 1 = some s ∧ s.inFlight = true := by
  have hbody : ((requestSent.locals firstWorker).body.event?.bind
      fun w => w.sessions.lookup 1).any (·.inFlight) = true := by decide +kernel
  rw [Option.any_eq_true] at hbody
  obtain ⟨s, hs, hin⟩ := hbody
  obtain ⟨w, hw, hl⟩ := Option.bind_eq_some_iff.mp hs
  exact ⟨w, s, Body.event?_eq_some.mp hw, hl, hin⟩

/-- A response cut in its head. -/
theorem segmentation_iff_not_found : ∃ w s, (requestSent.locals firstWorker).body = .event w ∧
    w.sessions.lookup 1 = some s ∧ s.inFlight = true ∧
    ((∀ cuts cuts', Cuts notFound cuts → Cuts notFound cuts' →
      SameOutcome 1 (w.handleAll twoRequests (dataEvents 1 cuts))
        (w.handleAll twoRequests (dataEvents 1 cuts'))) ↔
      twoRequests.protocol ≠ .http ∨
        ∀ t u, t ≠ [] → u ≠ [] → t ++ u = notFound → ¬ (s.parser.feed t).1.Finished) := by
  have hrun : Runs twoRequests 0 requestSent := reachable_run _
  obtain ⟨w, s, hw, hl, hin⟩ := requestSent_session
  exact ⟨w, s, hw, hl, hin, segmentation_iff hrun hw hl notFound⟩

/-- Two responses to one request: in one data event they complete it once, in two they complete it
twice. -/
theorem replies_counted_by_events :
    ¬ ∀ c, Runs twoRequests 0 c → ∀ i w, (c.locals (some i)).body = .event w →
      ∀ id s, w.sessions.lookup id = some s → s.inFlight = true → ∀ bytes cuts cuts',
        Cuts bytes cuts → Cuts bytes cuts' →
          SameOutcome id (w.handleAll twoRequests (dataEvents id cuts))
            (w.handleAll twoRequests (dataEvents id cuts')) := by
  intro h
  have hrun : Runs twoRequests 0 requestSent := reachable_run _
  obtain ⟨w, s, hw, hl, hin⟩ := requestSent_session
  have hne : okResponse ≠ [] := by decide +kernel
  have hsame := h _ hrun _ w hw 1 s hl hin (okResponse ++ okResponse)
    [({}, okResponse ++ okResponse)] [({}, okResponse), ({}, okResponse)]
    (by simp [Cuts, hne]) (by simp [Cuts, hne])
  have hcounts : (requestSent.locals firstWorker).body.event?.map (fun w =>
      (owed .completed (w.handleAll twoRequests
          (dataEvents 1 [({}, okResponse ++ okResponse)])).1,
        owed .completed (w.handleAll twoRequests
          (dataEvents 1 [({}, okResponse), ({}, okResponse)])).1)) = some (1, 2) := by
    decide +kernel
  rw [Body.event?_eq_some.mpr hw, Option.map_some, Option.some.injEq, Prod.mk.injEq] at hcounts
  have hone := hsame.completed
  rw [hcounts.1, hcounts.2] at hone
  exact absurd hone (by decide)

end Engine

end TitanBench
