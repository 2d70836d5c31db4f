import TitanBench.EngineMoves
import TitanBench.SslGet

/-!
# The connection of a slot

Whether a slot closes its connection is decided in two places: `performHttpGet` looks at the
keep-alive flags of a response, and the slot closes the connection of a failed request that it will
retry.

* `SlotEvent`, `gets` — what happens to the connections of a slot, and the requests issued on the
  present one.
* `Slot.breaks` — the requests after which a broken connection stays open.
* `slot_reuses_whole` — the main result.
-/

namespace TitanBench

open Threads

/-- What can be seen of a slot's connection: a successful `Connect`, and a call of `PerformHttpGet`
with whether it returned `kOk` and whether it saw the end of the stream. -/
inductive SlotEvent
  | connected
  | got (ok eof : Bool)
  deriving DecidableEq

/-- The requests issued since the last successful `Connect`. -/
def gets (log : List SlotEvent) : List (Bool × Bool) :=
  log.foldl (fun issued event =>
    match event with
    | .connected => []
    | .got ok eof => issued ++ [(ok, eof)]) []

@[simp] theorem gets_nil : gets [] = [] := rfl

@[simp] theorem gets_connected (log : List SlotEvent) : gets (log ++ [.connected]) = [] := by
  simp [gets]

@[simp] theorem gets_got (log : List SlotEvent) (ok eof : Bool) :
    gets (log ++ [.got ok eof]) = gets log ++ [(ok, eof)] := by
  simp [gets]

/-- No request on the present connection has failed or seen the end of the stream. -/
def Whole (log : List SlotEvent) : Prop := ∀ got ∈ gets log, got = (true, false)

instance (log : List SlotEvent) : Decidable (Whole log) := List.decidableBAll _ _

namespace Slot

/-- The request the slots issue. -/
def request (cfg : Config) : Request := { host := cfg.host, path := cfg.path, keepAlive := true }

/-- Whether a transaction counts as a success. -/
def succeeds (r : SslClient × Result × Response × Bytes) : Bool :=
  r.2.1.status = .ok && r.2.2.1.statusCode < 400

/-- What the next step of the slot does to its connection. -/
def observe (cfg : Config) (env : Env) (s : Slot) : List SlotEvent :=
  match s.ctl with
  | .connecting =>
    if s.client.connected = false ∧ (ensureConnected cfg env.ssl s.client).2 = true
    then [.connected] else []
  | .performing =>
    [.got ((s.client.performHttpGet (request cfg) env.get).2.1.status = .ok) env.get.sawEof]
  | _ => []

/-- The transaction `sys` breaks the connection, and the slot keeps it: it fails after the last
retry, or the end of the stream completes a response that neither says close nor counts as a failure
to retry. -/
def breaks (s : Slot) (sys : GetSys) : Bool :=
  match sys.ending with
  | .answered _ => false
  | .closed r => r.keepAlive && !(400 ≤ r.statusCode && s.retry < maxRetryPerSession)
  | .failed _ => !(s.retry < maxRetryPerSession)

end Slot

namespace SslClient

variable {c : SslClient}

theorem init_connection (sys : SslSys) :
    (c.init sys).1.connected = c.connected ∧ (c.init sys).1.ssl = c.ssl ∧
      (c.init sys).1.keepAlive = c.keepAlive := by
  unfold init
  split_ifs <;> exact ⟨rfl, rfl, rfl⟩

theorem connectTcp_connected (endpoint : Endpoint) (timeoutMs : ℤ) (sys : SslSys) :
    (c.connectTcp endpoint timeoutMs sys).1.connected = c.connected ∧
      (c.connectTcp endpoint timeoutMs sys).1.keepAlive = c.keepAlive := by
  unfold connectTcp
  split
  · exact ⟨rfl, rfl⟩
  split
  · exact ⟨rfl, rfl⟩
  cases sys.socketFd with
  | none => exact ⟨rfl, rfl⟩
  | some fd =>
    dsimp only
    split
    · exact ⟨rfl, rfl⟩
    · cases sys.connect with
      | inProgress =>
        dsimp only
        split_ifs <;> exact ⟨rfl, rfl⟩
      | _ => exact ⟨rfl, rfl⟩

/-- A client is connected after `connect` exactly when it reports success. -/
theorem connect_connection (options : SslOptions) (sys : SslSys) :
    ((c.connect options sys).1.connected = true ↔ (c.connect options sys).2 = none) ∧
      ((c.connect options sys).2 = none →
        (c.connect options sys).1.ssl = true ∧
          (c.connect options sys).1.keepAlive = options.keepAlive) := by
  have hinit := @init_connection c.close sys
  unfold connect
  revert hinit
  generalize c.close.init sys = r
  intro hinit
  obtain ⟨c₁, err⟩ := r
  have hclosed : c₁.connected = false := hinit.1
  cases err with
  | some msg => simp [hclosed]
  | none =>
    dsimp only
    have htcp := @connectTcp_connected
      { c₁ with verifyPeer := options.verifyPeer, keepAlive := options.keepAlive }
      options.endpoint options.connectTimeoutMs sys
    revert htcp
    generalize connectTcp options.endpoint options.connectTimeoutMs sys _ = r
    intro htcp
    obtain ⟨c₂, err⟩ := r
    obtain ⟨hconn, hkeep⟩ := htcp
    have hclosed : c₂.connected = false := hconn.trans hclosed
    cases err with
    | some msg => simp [hclosed]
    | none =>
      dsimp only
      split_ifs
      · simp [close]
      · simp [close]
      · cases sys.handshake with
        | success => simp [show c₂.keepAlive = options.keepAlive from hkeep]
        | _ => simp [close]

end SslClient

/-! ## One slot -/

/-- The slot is between `Connect` and the end of its request. -/
def SlotCtl.holds : SlotCtl → Bool
  | .acquiring _ | .waiting _ | .performing => true
  | _ => false

namespace Slot

/-- The connection of the slot is whole if it is open, and it is open when the slot needs it. -/
structure Wholesome (s : Slot) (log : List SlotEvent) : Prop where
  usable : s.client.connected = true → s.client.ssl = true ∧ s.client.keepAlive = true
  whole : s.client.connected = true → Whole log
  holds : s.ctl.holds = true → s.client.connected = true

variable {cfg : Config} {s : Slot} {log : List SlotEvent} {env : Env}

/-- The slot goes on with its client. -/
theorem Wholesome.move (h : s.Wholesome log) {s' : Slot} (hclient : s'.client = s.client)
    (hholds : s'.ctl.holds = true → s.ctl.holds = true) : s'.Wholesome log := by
  refine ⟨?_, ?_, fun hctl => ?_⟩
  · rw [hclient]
    exact h.usable
  · rw [hclient]
    exact h.whole
  · rw [hclient]
    exact h.holds (hholds hctl)

/-- The slot has no connection. -/
theorem wholesome_closed {s' : Slot} (hclosed : s'.client.connected = false)
    (hholds : s'.ctl.holds = false) : s'.Wholesome log := by
  refine ⟨fun h => ?_, fun h => ?_, fun h => ?_⟩
  · rw [hclosed] at h
    cases h
  · rw [hclosed] at h
    cases h
  · rw [hholds] at h
    cases h

/-- What a slot that connects does to its client, and what is seen of it. -/
theorem ensureConnected_cases (cfg : Config) (env : Env) (s : Slot)
    (hctl : s.ctl = .connecting) :
    (s.client.connected = true ∧ ensureConnected cfg env.ssl s.client = (s.client, true) ∧
        s.observe cfg env = []) ∨
      (∃ client : SslClient, ensureConnected cfg env.ssl s.client = (client, true) ∧
        client.connected = true ∧ client.ssl = true ∧ client.keepAlive = true ∧
        s.observe cfg env = [.connected]) ∨
      ∃ client : SslClient, ensureConnected cfg env.ssl s.client = (client, false) ∧
        client.connected = false ∧ s.observe cfg env = [] := by
  cases hconn : s.client.connected with
  | true =>
    refine .inl ⟨rfl, ?_, ?_⟩
    · simp [ensureConnected, hconn]
    · simp [observe, hctl, hconn]
  | false =>
    obtain ⟨hiff, hok⟩ := s.client.connect_connection (sslOptions cfg) env.ssl
    have heq : ensureConnected cfg env.ssl s.client =
        ((s.client.connect (sslOptions cfg) env.ssl).1,
          decide ((s.client.connect (sslOptions cfg) env.ssl).2 = none)) := by
      simp [ensureConnected, hconn]
    by_cases hnone : (s.client.connect (sslOptions cfg) env.ssl).2 = none
    · refine .inr (.inl ⟨_, ?_, hiff.mpr hnone, (hok hnone).1, (hok hnone).2, ?_⟩)
      · rw [heq, decide_eq_true hnone]
      · simp [observe, hctl, hconn, heq, hnone]
    · refine .inr (.inr ⟨(s.client.connect (sslOptions cfg) env.ssl).1, ?_, ?_, ?_⟩)
      · rw [heq, decide_eq_false hnone]
      · simpa using fun hopen => hnone (hiff.mp hopen)
      · simp [observe, hctl, heq, hnone]

/-- What a slot does with its connection after a request. -/
theorem performGet_client (cfg : Config) (env : Env) (s : Slot) :
    (s.performGet cfg env).2.ctl = .loopTop ∧
      (s.performGet cfg env).2.client =
        if succeeds (s.client.performHttpGet (request cfg) env.get) = false ∧
            s.retry < maxRetryPerSession
        then (s.client.performHttpGet (request cfg) env.get).1.close
        else (s.client.performHttpGet (request cfg) env.get).1 := by
  unfold performGet succeeds request
  dsimp only
  generalize s.client.performHttpGet _ env.get = r
  obtain ⟨client, result, resp, body⟩ := r
  dsimp only
  split_ifs <;> simp_all

/-- A request breaks the connection and leaves it open exactly in the cases of `breaks`. -/
theorem performGet_breaks (hctl : s.ctl = .performing) (hconn : s.client.connected = true)
    (hssl : s.client.ssl = true) (hkeep : s.client.keepAlive = true) (cfg : Config) (env : Env) :
    ∃ ok eof, s.observe cfg env = [.got ok eof] ∧
      (s.breaks env.get = true ↔
        (s.performGet cfg env).2.client.connected = true ∧ (ok, eof) ≠ (true, false)) ∧
      ((s.performGet cfg env).2.client.connected = true →
        (s.performGet cfg env).2.client = s.client) := by
  refine ⟨_, env.get.sawEof, by simp only [observe, hctl]; rfl, ?_⟩
  rw [(performGet_client cfg env s).2]
  have hgot := SslClient.performHttpGet_got (request cfg) env.get hconn hssl
  have hflags : ∀ r : Response, s.client.keep (request cfg) r =
      if r.keepAlive then s.client else s.client.close := by
    intro r
    simp [SslClient.keep, request, hkeep]
  unfold breaks
  generalize s.client.performHttpGet (request cfg) env.get = r at hgot
  generalize env.get.ending = ending at hgot
  generalize env.get.sawEof = eof at hgot
  cases hgot with
  | @answered r result body hok =>
    refine ⟨by simp [hok], ?_⟩
    dsimp only
    rw [hflags]
    split_ifs <;> simp [SslClient.close]
  | @closed r result body hok =>
    dsimp only
    rw [hflags]
    by_cases hr : r.keepAlive = true
    · rw [if_pos hr]
      have hsucceeds : succeeds (s.client, result, r, body) = decide (r.statusCode < 400) := by
        simp [succeeds, hok]
      rw [hsucceeds]
      by_cases hretry : r.statusCode < 400 ∨ ¬ s.retry < maxRetryPerSession
      · have hnot : ¬ (decide (r.statusCode < 400) = false ∧ s.retry < maxRetryPerSession) := by
          rw [decide_eq_false_iff_not]
          tauto
        rw [if_neg hnot]
        simpa [hr, hconn] using hretry
      · obtain ⟨hbad, hleft⟩ := not_or.mp hretry
        rw [not_not] at hleft
        rw [if_pos ⟨decide_eq_false hbad, hleft⟩]
        simpa [hr, SslClient.close, hleft] using hbad
    · rw [if_neg hr]
      split_ifs <;> simp [hr, SslClient.close]
  | @failed status eof result hstatus hne =>
    have hfails : succeeds (s.client, result, ({} : Response), ([] : Bytes)) = false := by
      simp [succeeds, hstatus, hne]
    dsimp only
    rw [hfails]
    by_cases hretry : s.retry < maxRetryPerSession
    · simp [hretry, SslClient.close]
    · simp [hretry, hconn, hstatus, hne]

theorem whole_concat {ok eof : Bool} (h : Whole log) (hgot : (ok, eof) = (true, false)) :
    Whole (log ++ [.got ok eof]) := by
  intro got hmem
  rw [gets_got, List.mem_append, List.mem_singleton] at hmem
  rcases hmem with hmem | rfl
  · exact h got hmem
  · exact hgot

/-- `Init` leaves the connection as it is. -/
theorem Wholesome.inited (h : s.Wholesome log) (sys : SslSys) {ctl : SlotCtl}
    (hctl : ctl.holds = false) :
    Wholesome { s with client := (s.client.init sys).1, ctl := ctl } log := by
  obtain ⟨hconn, hssl, hkeep⟩ := @SslClient.init_connection s.client sys
  refine ⟨fun hopen => ?_, fun hopen => ?_, fun hholds => ?_⟩
  · rw [show (s.client.init sys).1.connected = s.client.connected from hconn] at hopen
    exact ⟨hssl.trans (h.usable hopen).1, hkeep.trans (h.usable hopen).2⟩
  · exact h.whole (hconn.symm.trans hopen)
  · rw [show ctl.holds = true from hholds] at hctl
    cases hctl

theorem Wholesome.performed (h : s.Wholesome log) (hc : s.ctl = .performing)
    (hok : s.breaks env.get = false) :
    (s.performGet cfg env).2.Wholesome (log ++ s.observe cfg env) := by
  have hconn := h.holds (by rw [hc]; rfl)
  obtain ⟨hssl, hkeep⟩ := h.usable hconn
  obtain ⟨ok, eof, hobs, hbreaks, hsame⟩ := performGet_breaks hc hconn hssl hkeep cfg env
  rw [hobs]
  refine ⟨fun hopen => ?_, fun hopen => ?_, fun hholds => ?_⟩
  · rw [hsame hopen]
    exact ⟨hssl, hkeep⟩
  · refine whole_concat (h.whole hconn) ?_
    by_contra hne
    have hbroken := hbreaks.mpr ⟨hopen, hne⟩
    rw [hok] at hbroken
    cases hbroken
  · rw [(performGet_client cfg env s).1] at hholds
    cases hholds

/-- A step of the slot keeps its connection whole, unless a request breaks it and it stays open. -/
theorem Wholesome.step (h : s.Wholesome log) (hok : s.ctl = .performing → s.breaks env.get = false)
    {n : ℕ} (i : Fin n) (sh : Shared n) :
    (slotStep cfg i env sh s).2.2.Wholesome (log ++ s.observe cfg env) := by
  have hquiet : ∀ {ctl : SlotCtl}, s.ctl = ctl → ctl ≠ .connecting → ctl ≠ .performing →
      log ++ s.observe cfg env = log := by
    intro ctl hc hne hne'
    unfold observe
    rw [hc]
    cases ctl <;> simp_all
  unfold slotStep
  cases hc : s.ctl with
  | start =>
    rw [hquiet hc (by simp) (by simp)]
    dsimp only
    have hkept : ∀ ctl : SlotCtl, ctl.holds = false →
        Wholesome { s with client := (s.client.init env.ssl).1, ctl := ctl } log :=
      fun _ => h.inited env.ssl
    generalize s.client.init env.ssl = r at hkept
    obtain ⟨client, err⟩ := r
    cases err with
    | none => exact hkept _ rfl
    | some msg => exact hkept _ rfl
  | loopTop =>
    rw [hquiet hc (by simp) (by simp)]
    dsimp only
    split_ifs
    · exact h.move rfl (fun hholds => nomatch hholds)
    · exact h.move rfl (fun hholds => nomatch hholds)
  | connecting =>
    dsimp only
    rcases ensureConnected_cases cfg env s hc with
      ⟨hconn, heq, hobs⟩ | ⟨client, heq, hconn, hssl, hkeep, hobs⟩ | ⟨client, heq, hclosed, hobs⟩
    · rw [heq, hobs, List.append_nil]
      exact ⟨h.usable, h.whole, fun _ => hconn⟩
    · rw [heq, hobs]
      refine ⟨fun _ => ⟨hssl, hkeep⟩, fun _ got hmem => ?_, fun _ => hconn⟩
      rw [gets_connected] at hmem
      cases hmem
    · rw [heq]
      dsimp only
      split_ifs
      · exact wholesome_closed hclosed rfl
      · exact wholesome_closed hclosed rfl
  | acquiring pc =>
    rw [hquiet hc (by simp) (by simp)]
    have hholds : ∀ {s' : Slot}, s'.client = s.client → s'.Wholesome log :=
      fun hclient => h.move hclient fun _ => by rw [hc]; rfl
    dsimp only
    cases quotaStep cfg env.spurious (sh.counters .started) pc with
    | mk started result =>
      cases result with
      | inl pc' => exact hholds rfl
      | inr granted => cases granted <;> exact hholds rfl
  | waiting pc =>
    rw [hquiet hc (by simp) (by simp)]
    have hholds : ∀ {s' : Slot}, s'.client = s.client → s'.Wholesome log :=
      fun hclient => h.move hclient fun _ => by rw [hc]; rfl
    dsimp only
    cases rateStep cfg.rateIntervalNs env.nowNs env.spurious sh.nextTokenNs pc with
    | mk token pc' => cases pc' <;> exact hholds rfl
  | performing => exact h.performed hc (hok hc)
  | returning =>
    rw [hquiet hc (by simp) (by simp)]
    exact h.move rfl (fun hholds => nomatch hholds)
  | exited =>
    rw [hquiet hc (by simp) (by simp)]
    exact h.move rfl id

end Slot

/-! ## Runs -/

/-- What the next step of the thread does to the connection of its slot. -/
def Thread.observe (cfg : Config) (env : Env) (t : Thread) : List SlotEvent :=
  match t.ops, t.body with
  | [], .slot s => s.observe cfg env
  | _, _ => []

/-- The slot that issues a request in the next step of the thread. -/
def Thread.issuing (t : Thread) : Option Slot :=
  match t.ops, t.body with
  | [], .slot s => if s.ctl = .performing then some s else none
  | _, _ => none

theorem Thread.issuing_eq {t : Thread} {s : Slot} :
    t.issuing = some s ↔ t = ⟨[], .slot s⟩ ∧ s.ctl = .performing := by
  obtain ⟨ops, body⟩ := t
  cases ops with
  | cons op ops => simp [issuing]
  | nil =>
    cases body with
    | slot s' =>
      simp only [issuing, Option.ite_none_right_eq_some, Option.some.injEq]
      constructor
      · rintro ⟨hctl, rfl⟩
        exact ⟨rfl, hctl⟩
      · rintro ⟨heq, hctl⟩
        cases heq
        exact ⟨hctl, rfl⟩
    | main | event => simp [issuing]

/-- The next step of the thread breaks the connection of its slot and leaves it open. -/
def Thread.breaks (env : Env) (t : Thread) : Bool :=
  t.issuing.any fun s => s.breaks env.get

namespace Engine

variable {n : ℕ}

/-- The log of slot `k`. -/
def slotLog (cfg : Config) (k : Fin n) (c : Conf n) (i : Option (Fin n)) (e : Env) :
    List SlotEvent :=
  if i = some k then (c.locals i).observe cfg e else []

/-- The steps that leave no broken connection open. -/
def Mends (c : Conf n) (i : Option (Fin n)) (e : Env) : Prop := (c.locals i).breaks e = false

instance (c : Conf n) (i : Option (Fin n)) (e : Env) : Decidable (Mends c i e) :=
  inferInstanceAs (Decidable (_ = _))

theorem wholesome_init (cfg : Config) (beginNs : ℕ) (k : Fin cfg.threadCount) :
    ∀ s, ((init cfg beginNs).locals (some k)).body = .slot s → s.Wholesome [] := by
  intro s hs
  have hbody : initialBody cfg k = .slot s := hs
  unfold initialBody at hbody
  split_ifs at hbody
  cases hbody
  exact Slot.wholesome_closed rfl rfl

/-- In a run that leaves no broken connection open, the open connection of a slot is whole. -/
theorem wholesome {cfg : Config} {beginNs : ℕ} {k : Fin cfg.threadCount} {c : Conf cfg.threadCount}
    {log : List SlotEvent} (h : Logged (step cfg) (slotLog cfg k) Mends (init cfg beginNs) c log) :
    ∀ s, (c.locals (some k)).body = .slot s → s.Wholesome log := by
  refine h.local_invariant (J := fun t log => ∀ s, t.body = .slot s → s.Wholesome log) (some k)
    (wholesome_init cfg beginNs k) ?_ (fun c j e hj => if_neg hj)
  intro c log e _ hmends ht
  unfold slotLog
  rw [if_pos rfl]
  unfold Mends at hmends
  generalize c.locals (some k) = t at hmends ht
  obtain ⟨ops, body⟩ := t
  cases ops with
  | cons op rest =>
    rw [show Thread.observe cfg e ⟨op :: rest, body⟩ = [] from rfl, List.append_nil]
    exact ht
  | nil =>
    cases body with
    | slot s =>
      intro s' hs'
      cases hs'
      refine (ht s rfl).step (fun hctl => ?_) k c.shared
      simpa [Thread.breaks, Thread.issuing, hctl] using hmends
    | main m => exact fun s hs => nomatch hs
    | event w => exact fun s hs => nomatch hs

/-- **A slot reuses only whole connections.** In every run whose transactions leave no broken
connection open, whenever a slot is about to issue a request its connection is open, and no request
since its `Connect` has failed or seen the end of the stream. -/
theorem slot_reuses_whole (cfg : Config) {beginNs : ℕ} (k : Fin cfg.threadCount)
    {c : Conf cfg.threadCount} {log : List SlotEvent}
    (h : Logged (step cfg) (slotLog cfg k) Mends (init cfg beginNs) c log) {s : Slot}
    (hs : c.locals (some k) = ⟨[], .slot s⟩) (hctl : s.ctl = .performing) :
    s.client.connected = true ∧ Whole log := by
  have hwhole := wholesome h s (by rw [hs])
  have hconn := hwhole.holds (by rw [hctl]; rfl)
  exact ⟨hconn, hwhole.whole hconn⟩

/-! ## Requests that are never answered -/

/-- One slot. -/
def oneSlot : Config where
  concurrency := 1
  requests := 9
  protocol := .https
  host := ascii "localhost"
  port := 443
  hasRequests := true

def theSlot : Fin oneSlot.threadCount := ⟨0, by decide⟩

/-- `steps` steps of the slot, while the server accepts connections and answers nothing. -/
def mute (steps : ℕ) : List (Option (Fin oneSlot.threadCount) × Env) :=
  List.replicate steps (some theSlot, {})

/-- The log of the slot after `steps` steps. -/
def muteLog (steps : ℕ) : List SlotEvent :=
  (init oneSlot 0).log (step oneSlot) (slotLog oneSlot theSlot) (mute steps)

/-- For each of its three retries the slot has a new connection. -/
theorem slot_reuses_whole_retries : Whole (muteLog 62) := by
  have hok : RunOk (step oneSlot) Mends (init oneSlot 0) (mute 62) := by decide +kernel
  have hissues : (((init oneSlot 0).run (step oneSlot) (mute 62)).locals
      (some theSlot)).issuing.isSome = true := by decide +kernel
  obtain ⟨s, hs⟩ := Option.isSome_iff_exists.mp hissues
  obtain ⟨hthread, hctl⟩ := Thread.issuing_eq.mp hs
  exact (slot_reuses_whole oneSlot theSlot (logged_run _ hok) hthread hctl).2

/-- The fourth failure leaves the connection open, and the fifth request is issued on it. -/
theorem slot_reuses_broken :
    ¬ ∀ c log, Logged (step oneSlot) (slotLog oneSlot theSlot) (fun _ _ _ => True)
        (init oneSlot 0) c log →
      ∀ s, c.locals (some theSlot) = ⟨[], .slot s⟩ → s.ctl = .performing → Whole log := by
  intro h
  have hissues : (((init oneSlot 0).run (step oneSlot) (mute 79)).locals
      (some theSlot)).issuing.isSome = true := by decide +kernel
  obtain ⟨s, hs⟩ := Option.isSome_iff_exists.mp hissues
  obtain ⟨hthread, hctl⟩ := Thread.issuing_eq.mp hs
  have hwhole : Whole (muteLog 79) :=
    h _ _ (logged_run _ (runOk_of_forall (fun _ _ _ => trivial) _)) s hthread hctl
  exact absurd hwhole (by decide +kernel)

end Engine

end TitanBench
