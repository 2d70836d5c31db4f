import TitanBench.EngineHttps
import TitanBench.EngineSlots
import TitanBench.SslLifetime

/-!
# The TLS clients of the slots

A slot drives its client through `Init`, `Connect`, `PerformHttpGet` and `Close`, and destroys it
when it returns. So the client lives a life as in `TitanBench.SslLifetime`, in any run of the
engine.

* `Slot.clientSteps` — the calls of a step of the slot; `Slot.slotStep_client`.
* `ClientRun.client` — the client of a slot is what these calls make of a new one.
* `Slot.Holding` — a slot that has a request to send is connected; `Runs.holding_slot`.
* `clients_released` — the main result: what the slots of a run own, release and leave.
-/

namespace TitanBench

open Threads Handles

variable {n : ℕ}

namespace Slot

variable {cfg : Config} {i : Fin n} {env : Env} {sh : Shared n} {s : Slot}

/-! ## The calls of one step -/

/-- The calls of the client in the next step of the slot. -/
def clientSteps (cfg : Config) (env : Env) (s : Slot) : List SslStep :=
  match s.ctl with
  | .start => [.init env.ssl]
  | .connecting => if s.client.connected then [] else [.connect (sslOptions cfg) env.ssl]
  | .performing =>
    .performHttpGet (request cfg) env.get ::
      if succeeds (s.client.performHttpGet (request cfg) env.get) = false ∧
          s.retry < maxRetryPerSession then
        [.close]
      else []
  | _ => []

/-- **The calls of the client** are all that a step of the slot does to it. -/
theorem slotStep_client (cfg : Config) (i : Fin n) (env : Env) (sh : Shared n) (s : Slot) :
    Mealy.run SslClient.step s.client (s.clientSteps cfg env)
      = (slotStep cfg i env sh s).2.2.client := by
  unfold slotStep clientSteps
  cases hc : s.ctl with
  | start =>
    show (s.client.init env.ssl).1 = _
    dsimp only
    obtain ⟨client, err⟩ := s.client.init env.ssl
    cases err <;> rfl
  | connecting =>
    dsimp only
    have hclient : Mealy.run SslClient.step s.client
        (if s.client.connected then [] else [.connect (sslOptions cfg) env.ssl])
          = (ensureConnected cfg env.ssl s.client).1 := by
      unfold ensureConnected
      split_ifs <;> rfl
    rw [hclient]
    obtain ⟨client, connected⟩ := ensureConnected cfg env.ssl s.client
    cases connected with
    | true => rfl
    | false =>
      dsimp only
      split_ifs <;> rfl
  | acquiring pc =>
    dsimp only
    rcases quotaStep cfg env.spurious (sh.counters .started) pc with ⟨started, pc' | granted⟩
    · rfl
    · cases granted <;> rfl
  | waiting pc =>
    dsimp only
    rcases rateStep cfg.rateIntervalNs env.nowNs env.spurious sh.nextTokenNs pc with ⟨token, pc'⟩
    cases pc' <;> rfl
  | performing =>
    have hclient := (s.performGet_client cfg env).2
    dsimp only
    rw [hclient]
    split_ifs <;> rfl
  | loopTop =>
    dsimp only
    split_ifs <;> rfl
  | returning => rfl
  | exited => rfl

/-! ## Connected when it counts -/

/-- A slot that is about to get a grant or to perform a request is connected. -/
def Holding (s : Slot) : Prop := s.ctl.holds = true → s.client.connected = true

theorem holding_step (h : s.Holding) (i : Fin n) (sh : Shared n) :
    (slotStep cfg i env sh s).2.2.Holding := by
  by_cases hc : s.ctl = .connecting
  · unfold slotStep
    rw [hc]
    dsimp only
    rcases ensureConnected_cases cfg env s hc with
      ⟨hconn, heq, -⟩ | ⟨client, heq, hconn, -⟩ | ⟨client, heq, -⟩
    · rw [heq]
      exact fun _ => hconn
    · rw [heq]
      exact fun _ => hconn
    · rw [heq]
      dsimp only
      split_ifs
      · exact fun hholds => nomatch hholds
      · exact fun hholds => nomatch hholds
  · have hm := slotStep_move cfg i env sh s
    generalize slotStep cfg i env sh s = r at hm ⊢
    cases hm with
    | goes hg =>
      cases hg <;> exact fun hholds => nomatch hholds
    | connected _ hc' | retried _ hc' | gaveUp _ hc' => exact absurd hc' hc
    | acquires hc' | granted hc' | waits _ hc' | waited _ hc' =>
      exact fun _ => h (by rw [hc']; rfl)
    | started | notStarted | refused | performed | returned => exact fun hholds => nomatch hholds

end Slot

/-! ## Runs -/

/-- The calls of the client in the next step of the thread's own code. -/
def Body.clientSteps (cfg : Config) (env : Env) : Body → List SslStep
  | .slot s => s.clientSteps cfg env
  | _ => []

/-- The client of a thread; one that has none is like one with a new client. -/
def Body.client : Body → SslClient
  | .slot s => s.client
  | _ => {}

namespace Engine

variable {cfg : Config} {beginNs : ℕ} {c : Conf cfg.threadCount}
  {log : List (Fin cfg.threadCount × SslStep)}

def clientOf (c : Conf n) (i : Fin n) : SslClient := (c.locals (some i)).body.client

/-- The calls of the clients in a step of the run. -/
def clientSteps (cfg : Config) (c : Conf n) (i : Option (Fin n)) (env : Env) :
    List (Fin n × SslStep) :=
  match i with
  | some i =>
    if (c.locals (some i)).ops = [] then ((c.locals (some i)).body.clientSteps cfg env).map (i, ·)
    else []
  | none => []

/-- The runs, with the calls of the clients. -/
abbrev ClientRun (cfg : Config) (beginNs : ℕ) :
    Conf cfg.threadCount → List (Fin cfg.threadCount × SslStep) → Prop :=
  Logged (step cfg) (clientSteps cfg) (fun _ _ _ => True) (init cfg beginNs)

theorem step_client (cfg : Config) (i : Fin n) (env : Env) (sh : Shared n) (t : Thread) :
    Mealy.run SslClient.step t.body.client (if t.ops = [] then t.body.clientSteps cfg env else [])
      = (step cfg (some i) env sh t).2.body.client := by
  obtain ⟨ops, body⟩ := t
  cases ops with
  | cons op rest => rfl
  | nil =>
    cases body with
    | slot s => exact s.slotStep_client cfg i env sh
    | _ => rfl

/-- **The client of a slot** is what its calls make of a new one. -/
theorem ClientRun.client (h : ClientRun cfg beginNs c log) (i : Fin cfg.threadCount) :
    SslClient.run (entriesOf i log) = clientOf c i := by
  have hinit : ((init cfg beginNs).locals (some i)).body.client = {} := by
    show (initialBody cfg i).client = {}
    unfold initialBody
    split_ifs <;> rfl
  unfold SslClient.run
  rw [← hinit]
  refine h.part (g := fun t : Thread => t.body.client) (some i) i ?_ ?_
  · intro c env
    rw [← step_client]
    unfold clientSteps
    dsimp only
    split_ifs
    · rw [entriesOf_self]
    · rfl
  · intro c j env hj
    cases j with
    | none => rfl
    | some j =>
      have hne : j ≠ i := fun heq => hj (congrArg some heq)
      unfold clientSteps
      dsimp only
      split_ifs
      · rw [entriesOf_other hne]
      · rfl

theorem Runs.holding_slot (h : Runs cfg beginNs c) (i : Fin cfg.threadCount) {s : Slot}
    (hs : (c.locals (some i)).body = .slot s) : s.Holding := by
  refine h.local_invariant (J := fun t => ∀ s, t.body = .slot s → s.Holding) (some i) ?_ ?_ s hs
  · intro s hs
    have hinit : initialBody cfg i = .slot s := hs
    unfold initialBody at hinit
    split_ifs at hinit
    cases hinit
    exact fun hholds => nomatch hholds
  · intro c env _ _ ih s hs
    rcases ht : c.locals (some i) with ⟨ops, body⟩
    rw [ht] at hs ih
    cases ops with
    | cons op rest => exact ih s hs
    | nil =>
      cases body with
      | slot s₀ =>
        cases hs
        exact Slot.holding_step (ih s₀ rfl) i c.shared
      | _ => cases hs

/-- What the client of thread `i` has opened and closed so far. A slot that returns destroys it. -/
def clientDeeds (c : Conf n) (log : List (Fin n × SslStep)) (i : Fin n) : List (Event SslHandle) :=
  (SslClient.visits (entriesOf i log)).flatMap SslClient.deeds ++
    if c.shared.running i then [] else (clientOf c i).closeDeeds

/-- **What the slots own, release and leave.** In every run no client releases what it does not own
or releases it twice; a slot that has a request to send owns a socket and a TLS object for it; a
slot that has returned has released all but its context; and of contexts, which nothing releases,
all slots together make no more than there are of them. -/
theorem clients_released (h : ClientRun cfg beginNs c log) :
    (∀ i, ∃ owned, audit [] (clientDeeds c log i) = some owned ∧
      (∀ s, (c.locals (some i)).body = .slot s → s.ctl.holds = true →
        .ssl ∈ owned ∧ ∃ fd, s.client.fd = some fd ∧ .socket fd ∈ owned) ∧
      (c.shared.running i = false → ∀ handle ∈ owned, handle = .ctx)) ∧
    (∀ i, .closed .ctx ∉ clientDeeds c log i) ∧
    ∑ i, (clientDeeds c log i).count (.opened .ctx) ≤ cfg.threadCount := by
  have hruns : Runs cfg beginNs c := h.reach
  have hctx : ∀ i, .closed .ctx ∉ clientDeeds c log i := by
    intro i
    unfold clientDeeds
    refine List.not_mem_append (SslClient.visits_ctx _) ?_
    split_ifs
    · exact List.not_mem_nil
    · exact SslClient.closeDeeds_ctx _
  have howned : ∀ i, ∃ owned, audit [] (clientDeeds c log i) = some owned ∧
      owned.Perm
        (if c.shared.running i then (clientOf c i).held else (clientOf c i).close.held) := by
    intro i
    have htakes := SslClient.takes_run (entriesOf i log)
    rw [h.client] at htakes
    unfold clientDeeds
    split_ifs
    · obtain ⟨owned, hperm, haudit⟩ := htakes [] (.refl _)
      rw [List.append_nil]
      exact ⟨owned, haudit, hperm⟩
    · obtain ⟨owned, hperm, haudit⟩ :=
        (htakes.append (SslClient.takes_close (clientOf c i))) [] (.refl _)
      exact ⟨owned, haudit, hperm⟩
  refine ⟨fun i => ?_, hctx, ?_⟩
  · obtain ⟨owned, haudit, hperm⟩ := howned i
    refine ⟨owned, haudit, fun s hs hholds => ?_, fun hi handle hhandle => ?_⟩
    · have hrunning : c.shared.running i = true := by
        by_contra hi
        have hexited := (hruns.exited i (by simpa using hi)).2
        rw [hs] at hexited
        have hctl : s.ctl = .exited := hexited
        rw [hctl] at hholds
        cases hholds
      have hclient : clientOf c i = s.client := by
        unfold clientOf
        rw [hs]
        rfl
      have hsound := SslClient.sound_run (entriesOf i log)
      rw [h.client, hclient] at hsound
      rw [hrunning, if_pos rfl, hclient] at hperm
      obtain ⟨hssl, fd, hfd, hsocket⟩ := hsound.owns (hruns.holding_slot i hs hholds)
      exact ⟨hperm.mem_iff.mpr hssl, fd, hfd, hperm.mem_iff.mpr hsocket⟩
    · rw [hi, if_neg (by simp), SslClient.held_close] at hperm
      have hmem := hperm.mem_iff.mp hhandle
      split_ifs at hmem
      · exact List.mem_singleton.mp hmem
      · cases hmem
  · have hone : ∀ i, (clientDeeds c log i).count (.opened .ctx) ≤ 1 := by
      intro i
      obtain ⟨owned, haudit, hperm⟩ := howned i
      split_ifs at hperm
      · exact SslClient.made_le_one haudit hperm (hctx i)
      · exact SslClient.made_le_one haudit hperm (hctx i)
    have hsum := Finset.sum_le_card_nsmul Finset.univ _ 1 fun i _ => hone i
    simpa using hsum

/-- The slot of one request has made a context, a socket and a TLS object, and leaves the first. -/
theorem clients_released_answered :
    ∃ owned, audit [] (clientDeeds (slotRun answering) ((init oneHttpsRequest 0).log
        (step oneHttpsRequest) (clientSteps oneHttpsRequest) (slotSchedule answering))
        ⟨0, by decide⟩) = some owned ∧
      (∀ handle ∈ owned, handle = .ctx) ∧
      (clientDeeds (slotRun answering) ((init oneHttpsRequest 0).log (step oneHttpsRequest)
        (clientSteps oneHttpsRequest) (slotSchedule answering)) ⟨0, by decide⟩).length = 5 := by
  have hrun : ClientRun oneHttpsRequest 0 (slotRun answering)
      ((init oneHttpsRequest 0).log (step oneHttpsRequest) (clientSteps oneHttpsRequest)
        (slotSchedule answering)) := logged_run _ (runOk_of_forall (fun _ _ _ => trivial) _)
  obtain ⟨owned, haudit, -, hleft⟩ := (clients_released hrun).1 ⟨0, by decide⟩
  exact ⟨owned, haudit, hleft (by decide +kernel), by decide +kernel⟩

end Engine

end TitanBench
