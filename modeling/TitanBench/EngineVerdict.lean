import TitanBench.EngineSessions
import TitanBench.EngineSlots
import TitanBench.HttpFraming

/-!
# The verdict on a response

What the event-driven http path and a slot make of the same response.

* `handleAll` — the event loop on a sequence of events.
* `Verdict` — what a sample says about the response the parser has seen.
* `same_classification` — both paths agree exactly when the response is rejected or its status
  code is positive.
* `close_delimited` — a response that ends with the connection does not count as a response: it is
  completed once, with status `0` and as a failure of the connection.
-/

namespace TitanBench

open ResponseParser

/-! ## Samples -/

/-- The sample an update begins to record. -/
def Op.sample? : Op → Option RequestSample
  | .record sample => some sample
  | _ => none

/-- The samples recorded by some updates, in order. -/
def recorded (ops : List Op) : List RequestSample := ops.filterMap Op.sample?

@[simp] theorem recorded_nil : recorded [] = [] := rfl

@[simp] theorem recorded_append (ops ops' : List Op) :
    recorded (ops ++ ops') = recorded ops ++ recorded ops' :=
  List.filterMap_append

@[simp] theorem recorded_add (c : Counter) (k : ℕ) (ops : List Op) :
    recorded (.add c k :: ops) = recorded ops := rfl

@[simp] theorem recorded_record (sample : RequestSample) (ops : List Op) :
    recorded (.record sample :: ops) = sample :: recorded ops := rfl

/-- How a sample is filed: its success flag and its index in `errorCounts`. -/
def RequestSample.filed (sample : RequestSample) : Bool × ℕ :=
  (sample.success, errorIndexFromSample sample)

/-- How http files a response with status `status`. -/
def httpFiled (status : ℤ) : Bool × ℕ :=
  if 0 < status ∧ status < 400 then (true, 0) else (false, if status ≥ 500 then 4 else 3)

/-- How https files a response with status `status`. -/
def httpsFiled (status : ℤ) : Bool × ℕ :=
  if status < 400 then (true, 0) else (false, if status ≥ 500 then 4 else 3)

/-- The two differ for status codes that are not positive. -/
theorem httpFiled_eq_iff (status : ℤ) : httpFiled status = httpsFiled status ↔ 0 < status := by
  unfold httpFiled httpsFiled
  by_cases hpos : 0 < status
  · simp [hpos]
  · have hlow : status < 400 := by omega
    simp [hpos, hlow]

/-- The sample is the one of a response that `parser` has seen: rejected, or filed by its status
code. -/
inductive Verdict (filed : ℤ → Bool × ℕ) (parser : ResponseParser) (sample : RequestSample) : Prop
  | rejected : parser.state = .error → sample.filed = (false, ErrorClass.parseError.index) →
      Verdict filed parser sample
  | completed : parser.state = .done → sample.filed = filed parser.response.statusCode →
      Verdict filed parser sample

theorem Verdict.congr {filed : ℤ → Bool × ℕ} {p q : ResponseParser} {sample : RequestSample}
    (h : Verdict filed p sample) (hs : Same p q) : Verdict filed q sample := by
  cases h with
  | rejected hstate hfiled => exact .rejected (hs.state ▸ hstate) hfiled
  | completed hstate hfiled => exact .completed (hs.state ▸ hstate) (hs.response ▸ hfiled)

/-! ## The event loop -/

namespace EventWorker

/-- The worker handles some events in order: all its updates, and the worker afterwards. -/
def handleAll (cfg : Config) : List (Env × RecvEvent) → EventWorker → List Op × EventWorker
  | [], w => ([], w)
  | e :: rest, w =>
    let first := w.handleEvent cfg e.1 e.2 (rest.map (·.2))
    let others := first.2.handleAll cfg rest
    (first.1 ++ others.1, others.2)

/-- The data events that bring `pieces` on connection `id`. -/
def dataEvents (id : ℕ) (pieces : List (Env × Bytes)) : List (Env × RecvEvent) :=
  pieces.map fun p => (p.1, { connId := id, data := p.2 })

/-- A data event of a session under its own id, and what comes after it. -/
theorem handleAll_data (cfg : Config) (env : Env) (data : Bytes) (rest : List (Env × RecvEvent))
    {w : EventWorker} {id : ℕ} {s : Session} (hl : w.sessions.lookup id = some s)
    (hid : s.connId = id) :
    ∃ w' : EventWorker, w'.sessions.lookup id = some (dataEvent cfg env data s).2 ∧
      w.handleAll cfg ((env, { connId := id, data := data }) :: rest)
        = (.add .bytesReceived data.length ::
            ((dataEvent cfg env data s).1 ++ (w'.handleAll cfg rest).1),
          (w'.handleAll cfg rest).2) := by
  have hkey : (dataEvent cfg env data s).2.connId = id :=
    (dataEvent_connId cfg env data s).trans hid
  have heq : w.handleEvent cfg env { connId := id, data := data } (rest.map (·.2)) =
      (.add .bytesReceived data.length :: (dataEvent cfg env data s).1,
        { w with
          sessions := (w.sessions.erase id).insert id (dataEvent cfg env data s).2
          ctl := .handling (rest.map (·.2)) }) := by
    unfold handleEvent
    simp only [hl, Bool.false_eq_true, if_false, hkey]
  refine ⟨_, ?_, by
    rw [handleAll, heq]
    rfl⟩
  exact AList.lookup_insert _

theorem filed_parseError (cfg : Config) (env : Env) (data : Bytes) (s : Session) :
    ∃ sample, recorded (parseErrorOps cfg env data s) = [sample] ∧
      sample.filed = (false, ErrorClass.parseError.index) :=
  ⟨_, rfl, rfl⟩

theorem filed_response (cfg : Config) (env : Env) (data : Bytes) (s : Session) (status : ℤ) :
    ∃ sample, recorded (responseOps cfg env data s status) = [sample] ∧
      sample.filed = httpFiled status := by
  refine ⟨_, rfl, ?_⟩
  unfold RequestSample.filed httpFiled errorIndexFromSample
  rcases lt_or_ge 0 status with hpos | hneg
  · rcases lt_or_ge status 400 with hok | hbad
    · have h500 : ¬ 500 ≤ status := by omega
      have h400 : ¬ 400 ≤ status := by omega
      simp [hpos, hok, h500, h400, ErrorClass.index]
    · have hnot : ¬ status < 400 := by omega
      by_cases h500 : 500 ≤ status
      · have h499 : ¬ status ≤ 499 := by omega
        simp [hnot, h500, h499, ErrorClass.index]
      · simp [hnot, h500, ErrorClass.index]
  · have hnot : ¬ 0 < status := by omega
    have h500 : ¬ 500 ≤ status := by omega
    simp [hnot, h500, ErrorClass.index]

/-- The first sample that the pieces of a response bring about files the response. -/
theorem first_sample {cfg : Config} (hp : cfg.protocol = .http) {id : ℕ}
    (pieces : List (Env × Bytes)) {w : EventWorker} {s : Session}
    (hl : w.sessions.lookup id = some s) (hid : s.connId = id) (hended : s.parser.Ended)
    (hopen : s.parser.state ≠ .done ∧ s.parser.state ≠ .error)
    (hend : (s.parser.feed (pieces.map (·.2)).flatten).1.state = .done ∨
      (s.parser.feed (pieces.map (·.2)).flatten).1.state = .error) :
    ∃ sample, (recorded (w.handleAll cfg (dataEvents id pieces)).1).head? = some sample ∧
      Verdict httpFiled (s.parser.feed (pieces.map (·.2)).flatten).1 sample := by
  induction pieces generalizing w s with
  | nil => simp [hopen] at hend
  | cons piece pieces ih =>
    obtain ⟨env, data⟩ := piece
    have hfeed : Same ((s.parser.feed data).1.feed (pieces.map (·.2)).flatten).1
        (s.parser.feed (data ++ (pieces.map (·.2)).flatten)).1 :=
      same_of_settle (feed_feed _ _ _)
    obtain ⟨w', hnext, hops⟩ := handleAll_data cfg env data (dataEvents id pieces) hl hid
    have hsnd := feed_snd s.parser data
    have hdone := feed_ended hended data
    have hrecorded : recorded (w.handleAll cfg (dataEvents id ((env, data) :: pieces))).1
        = recorded (dataEvent cfg env data s).1
          ++ recorded (w'.handleAll cfg (dataEvents id pieces)).1 :=
      (congrArg (fun r => recorded r.1) hops).trans (recorded_append _ _)
    rw [hrecorded]
    -- The first piece decides, or the session waits for the next one.
    have hstop : ∀ sample, recorded (dataEvent cfg env data s).1 = [sample] →
        Verdict httpFiled (s.parser.feed data).1 sample →
        ∃ sample, (recorded (dataEvent cfg env data s).1
            ++ recorded (w'.handleAll cfg (dataEvents id pieces)).1).head? = some sample ∧
          Verdict httpFiled (s.parser.feed (data ++ (pieces.map (·.2)).flatten)).1 sample := by
      intro sample hsample hv
      refine ⟨sample, by rw [hsample]; rfl, hv.congr ?_⟩
      have hfinished := @feed_of_finished (s.parser.feed data).1
        (by cases hv with
          | rejected hstate => exact .inr hstate
          | completed hstate => exact .inl hstate) (pieces.map (·.2)).flatten
      rw [hfinished] at hfeed
      exact hfeed
    have hd := dataEvent_digested cfg env data s
    generalize dataEvent cfg env data s = r at hd hnext hstop
    cases hd with
    | other hne => exact absurd hp hne
    | rejected _ hfalse =>
      obtain ⟨sample, hrec, hfiled⟩ := filed_parseError cfg env data
        { s with parser := (s.parser.feed data).1, inFlight := false }
      refine hstop sample hrec (.rejected ?_ hfiled)
      simpa [hsnd] using hfalse
    | finished _ _ hmsg =>
      obtain ⟨sample, hrec, hfiled⟩ := filed_response cfg env data
        { s with parser := {}, inFlight := false, retries := 0 }
        (s.parser.feed data).1.response.statusCode
      exact hstop sample hrec (.completed (hdone.mp hmsg) hfiled)
    | awaited _ htrue hmsg =>
      have hgoes : (s.parser.feed data).1.state ≠ .done ∧
          (s.parser.feed data).1.state ≠ .error := by
        refine ⟨fun hstate => ?_, by simpa [hsnd] using htrue⟩
        rw [hdone.mpr hstate] at hmsg
        cases hmsg
      obtain ⟨sample, hrec, hv⟩ := ih hnext hid hdone hgoes (by rw [hfeed.state]; exact hend)
      exact ⟨sample, hrec, hv.congr hfeed⟩

end EventWorker

/-! ## The slot -/

namespace Slot

theorem recorded_performGet (cfg : Config) (env : Env) (s : Slot) :
    recorded (s.performGet cfg env).1 =
      recorded (resultOps env.nowNs (s.client.performHttpGet (request cfg) env.get).2.1
        (s.client.performHttpGet (request cfg) env.get).2.2.1.statusCode
        (succeeds (s.client.performHttpGet (request cfg) env.get))) := by
  unfold performGet succeeds request
  dsimp only
  generalize s.client.performHttpGet _ env.get = r
  obtain ⟨client, result, resp, body⟩ := r
  dsimp only
  split_ifs
  · rfl
  · rw [recorded_append]
    exact List.append_nil _
  · rfl

theorem filed_status (nowNs : ℕ) {result : Result} (status : ℤ) (hok : result.status = .ok) :
    ∃ sample, recorded (resultOps nowNs result status (status < 400)) = [sample] ∧
      sample.filed = httpsFiled status := by
  refine ⟨_, rfl, ?_⟩
  unfold RequestSample.filed httpsFiled errorIndexFromSample
  rcases lt_or_ge status 400 with hlow | hbad
  · have h500 : ¬ 500 ≤ status := by omega
    have h400 : ¬ 400 ≤ status := by omega
    simp [hlow, h500, h400, ErrorClass.index]
  · have hnot : ¬ status < 400 := by omega
    by_cases h500 : 500 ≤ status
    · have h499 : ¬ status ≤ 499 := by omega
      simp [hnot, hok, h500, h499, ErrorClass.index]
    · have h499 : status ≤ 499 := by omega
      simp [hnot, hbad, h500, h499, ErrorClass.index]

/-- What a slot records of a transaction that succeeds, and of one that fails in parsing. -/
theorem filed_got (cfg : Config) (env : Env) {s : Slot} {e : SslClient.GetEnd} {eof : Bool}
    (h : SslClient.Got (request cfg) s.client e eof
      (s.client.performHttpGet (request cfg) env.get)) :
    (∀ r, e = .answered r ∨ e = .closed r →
      ∃ sample, recorded (s.performGet cfg env).1 = [sample] ∧
        sample.filed = httpsFiled r.statusCode) ∧
    (e = .failed .parseError →
      ∃ sample, recorded (s.performGet cfg env).1 = [sample] ∧
        sample.filed = (false, ErrorClass.parseError.index)) := by
  rw [recorded_performGet]
  generalize s.client.performHttpGet (request cfg) env.get = res at h
  cases h with
  | @answered r result body hok | @closed r result body hok =>
    constructor
    · intro r' hr
      obtain ⟨sample, hrec, hfiled⟩ := filed_status env.nowNs r.statusCode hok
      rcases hr with heq | heq <;> cases heq
      refine ⟨sample, ?_, hfiled⟩
      simpa only [succeeds, hok, decide_true, Bool.true_and] using hrec
    · intro heq
      cases heq
  | @failed status _ result hstatus hne =>
    constructor
    · intro r hr
      rcases hr with heq | heq <;> cases heq
    · intro heq
      cases heq
      refine ⟨_, rfl, ?_⟩
      simp [RequestSample.filed, errorIndexFromSample, succeeds, hstatus]

/-- A slot records one sample of a response, which files it. -/
theorem performGet_verdict (cfg : Config) {env : Env} {s : Slot} (hconn : s.client.connected = true)
    (hssl : s.client.ssl = true) (hsend : env.get.sendFailure = none) {pieces : List Bytes}
    (hpieces : ∀ data ∈ pieces, data ≠ []) {rest : List SslRecv}
    (hrecvs : env.get.recvs = pieces.map .data ++ rest)
    (hend : (({} : ResponseParser).feed pieces.flatten).1.state = .done ∨
      (({} : ResponseParser).feed pieces.flatten).1.state = .error) :
    ∃ sample, recorded (s.performGet cfg env).1 = [sample] ∧
      Verdict httpsFiled (({} : ResponseParser).feed pieces.flatten).1 sample := by
  have hgot := filed_got cfg env (SslClient.performHttpGet_got (request cfg) env.get hconn hssl)
  -- What comes behind the response does not matter.
  have hsame : Same (({} : ResponseParser).feed pieces.flatten).1
      (({} : ResponseParser).feed (received env.get.recvs).1.flatten).1 := by
    rw [hrecvs, received_append hpieces, List.flatten_append]
    refine same_of_settle ?_
    rw [← feed_feed, feed_of_finished hend]
  have hending : env.get.ending =
      if (({} : ResponseParser).feed pieces.flatten).1.state = .done
      then .answered (({} : ResponseParser).feed pieces.flatten).1.response
      else .failed .parseError := by
    unfold GetSys.ending
    dsimp only
    rw [hsend, if_neg (by simp), ← hsame.state, ← hsame.response]
    rcases hend with hstate | hstate
    · rw [if_pos hstate, if_pos hstate]
    · simp [hstate]
  rw [hending] at hgot
  rcases hend with hstate | hstate
  · obtain ⟨sample, hrec, hfiled⟩ := hgot.1 _ (.inl (if_pos hstate))
    exact ⟨sample, hrec, .completed hstate hfiled⟩
  · obtain ⟨sample, hrec, hfiled⟩ := hgot.2 (if_neg (by simp [hstate]))
    exact ⟨sample, hrec, .rejected hstate hfiled⟩

end Slot

/-! ## Both paths -/

namespace Engine

open EventWorker

/-- **Http and https on one response.** The parser decides on the bytes of a response by `Feed`
alone. The http path gets them in any pieces as data events of a session with a fresh parser, a
slot gets them in any other pieces from its connection. The first sample of the http path and the
sample of the slot have the same success flag and the same index exactly when the response is
rejected or its status code is positive. -/
theorem same_classification {cfg cfg' : Config} (hp : cfg.protocol = .http) {bytes : Bytes}
    (hend : (({} : ResponseParser).feed bytes).1.state = .done ∨
      (({} : ResponseParser).feed bytes).1.state = .error)
    {w : EventWorker} {id : ℕ} {s : Session} (hl : w.sessions.lookup id = some s)
    (hid : s.connId = id) (hfresh : s.parser = {}) {pieces : List (Env × Bytes)}
    (hpieces : (pieces.map (·.2)).flatten = bytes)
    {slot : Slot} {env : Env} (hconn : slot.client.connected = true)
    (hssl : slot.client.ssl = true) (hsend : env.get.sendFailure = none) {cuts : List Bytes}
    (hcuts : cuts.flatten = bytes) (hne : ∀ data ∈ cuts, data ≠ []) {rest : List SslRecv}
    (hrecvs : env.get.recvs = cuts.map .data ++ rest) :
    ∃ a b, (recorded (w.handleAll cfg (dataEvents id pieces)).1).head? = some a ∧
      recorded (slot.performGet cfg' env).1 = [b] ∧
      (a.success = b.success ∧ errorIndexFromSample a = errorIndexFromSample b ↔
        (({} : ResponseParser).feed bytes).1.state = .error ∨
          0 < (({} : ResponseParser).feed bytes).1.response.statusCode) := by
  have hended : s.parser.Ended := by simp [hfresh, Ended, done]
  obtain ⟨a, ha, hva⟩ := first_sample hp pieces hl hid hended (by simp [hfresh])
    (by rw [hfresh, hpieces]; exact hend)
  rw [hfresh, hpieces] at hva
  obtain ⟨b, hb, hvb⟩ := Slot.performGet_verdict cfg' hconn hssl hsend hne hrecvs
    (by rw [hcuts]; exact hend)
  rw [hcuts] at hvb
  refine ⟨a, b, ha, hb, ?_⟩
  have hfiled : a.success = b.success ∧ errorIndexFromSample a = errorIndexFromSample b ↔
      a.filed = b.filed := Prod.mk_inj.symm
  rw [hfiled]
  cases hva with
  | rejected hstate hfa =>
    cases hvb with
    | rejected _ hfb => exact ⟨fun _ => .inl hstate, fun _ => hfa.trans hfb.symm⟩
    | completed hstate' => simp [hstate] at hstate'
  | completed hstate hfa =>
    cases hvb with
    | rejected hstate' => simp [hstate] at hstate'
    | completed _ hfb =>
      rw [hfa, hfb, httpFiled_eq_iff, hstate]
      exact ⟨.inr, fun h => h.resolve_left (by decide)⟩

/-- A worker that waits for the response to a request on connection `1`, and a slot that is
connected. -/
def waiting : EventWorker :=
  { sessions := AList.insert 1 { connId := 1, inFlight := true } ∅ }

def connected : Slot := { client := { connected := true, ssl := true } }

def notFound : Bytes := ascii "HTTP/1.1 404 Not Found\r\nContent-Length: 0\r\n\r\n"

theorem same_classification_not_found :
    ∃ a b, (recorded (waiting.handleAll twoRequests (dataEvents 1
          [({}, notFound.take 20), ({}, notFound.drop 20)])).1).head? = some a ∧
      recorded (connected.performGet twoRequests { get := { recvs := [.data notFound] } }).1 = [b] ∧
      a.success = b.success ∧ errorIndexFromSample a = errorIndexFromSample b := by
  obtain ⟨a, b, ha, hb, hiff⟩ := @same_classification twoRequests twoRequests rfl notFound
    (.inl (by decide +kernel)) waiting 1 { connId := 1, inFlight := true } (by decide +kernel) rfl
    rfl [({}, notFound.take 20), ({}, notFound.drop 20)] (by decide +kernel) connected
    { get := { recvs := [.data notFound] } } rfl rfl rfl [notFound] (by decide +kernel)
    (by decide +kernel) [] rfl
  exact ⟨a, b, ha, hb, hiff.mpr (.inr (by decide +kernel))⟩

/-- A complete response whose status code is `0`. -/
def zeroStatus : Bytes := ascii "HTTP/1.1 000 OK\r\nContent-Length: 0\r\n\r\n"

/-- A response with status code `0` is a failure with http and a success with https. -/
theorem zero_status :
    ¬ ∀ a b, (recorded (waiting.handleAll twoRequests (dataEvents 1 [({}, zeroStatus)])).1).head?
          = some a →
        recorded (connected.performGet twoRequests { get := { recvs := [.data zeroStatus] } }).1
          = [b] →
        a.success = b.success ∧ errorIndexFromSample a = errorIndexFromSample b := by
  intro h
  have hhttp : ((recorded
      (waiting.handleAll twoRequests (dataEvents 1 [({}, zeroStatus)])).1).head?).map
        RequestSample.filed = some (false, 3) := by decide +kernel
  have hhttps : (recorded (connected.performGet twoRequests
      { get := { recvs := [.data zeroStatus] } }).1).map RequestSample.filed = [(true, 0)] := by
    decide +kernel
  obtain ⟨a, ha, hfa⟩ := Option.map_eq_some_iff.mp hhttp
  obtain ⟨b, hb, hfb⟩ := List.map_eq_singleton_iff.mp hhttps
  have hsame : a.success = b.success := (h a b ha hb).1
  have hfailed : a.success = false := congrArg Prod.fst hfa
  have hok : b.success = true := congrArg Prod.fst hfb
  rw [hfailed, hok] at hsame
  cases hsame

end Engine

/-! ## Responses that end with the connection -/

/-- Without a `Content-Length` the parser waits, whatever part of the response it was fed. -/
theorem ResponseHead.unfinished (h : ResponseHead) (hno : ∀ l ∈ h.lines, ¬ isContentLength l)
    {body : Bytes} {cs : List Bytes} (hcs : cs.flatten <+: h.bytes ++ body) :
    (feedAll {} cs).1.done = false ∧ (feedAll {} cs).1.state ≠ .error := by
  have hsize : ∀ l ∈ h.lines, isContentLength l → IsSize (lineValue l) :=
    fun l hl hlen => absurd hlen (hno l hl)
  refine ⟨((framing h body cs hcs hsize).2 hno).1, fun herr => ?_⟩
  -- A rejected part stays rejected, but the whole response is not.
  obtain ⟨rest, hrest⟩ := hcs
  have hall : (cs ++ [rest]).flatten = h.bytes ++ body := by simp [hrest]
  have hstay : (feedAll {} (cs ++ [rest])).1 = (feedAll {} cs).1 := by
    rw [feedAll, List.foldl_append]
    exact feed_of_finished (.inr herr) rest
  have hdone := (((framing h body (cs ++ [rest]) (hall ▸ List.prefix_rfl) hsize).2 hno).2
    (by rw [hall, List.length_append]; omega)).1
  rw [hstay, markEof, if_neg (by simp [herr])] at hdone
  rw [((framing h body cs ⟨rest, hrest⟩ hsize).2 hno).1] at hdone
  cases hdone

namespace EventWorker

/-- While the response is incomplete its pieces complete nothing, and the request stays in
flight. -/
theorem handleAll_awaited {cfg : Config} (hp : cfg.protocol = .http) {h : ResponseHead}
    (hno : ∀ l ∈ h.lines, ¬ isContentLength l) {body : Bytes} {id : ℕ}
    (rest : List (Env × RecvEvent)) (pieces : List (Env × Bytes)) {cs : List Bytes}
    {w : EventWorker} {s : Session} (hl : w.sessions.lookup id = some s) (hid : s.connId = id)
    (hflight : s.inFlight = true) (hparser : s.parser = (feedAll {} cs).1)
    (hflat : (cs ++ pieces.map (·.2)).flatten <+: h.bytes ++ body) :
    ∃ (w' : EventWorker) (s' : Session), w'.sessions.lookup id = some s' ∧ s'.inFlight = true ∧
      recorded (w.handleAll cfg (dataEvents id pieces ++ rest)).1
        = recorded (w'.handleAll cfg rest).1 ∧
      ∀ c ≠ .bytesReceived, owed c (w.handleAll cfg (dataEvents id pieces ++ rest)).1
        = owed c (w'.handleAll cfg rest).1 := by
  induction pieces generalizing cs w s with
  | nil => exact ⟨w, s, hl, hflight, rfl, fun _ _ => rfl⟩
  | cons piece pieces ih =>
    obtain ⟨env, data⟩ := piece
    have hcut : cs ++ ((env, data) :: pieces).map (·.2) = (cs ++ [data]) ++ pieces.map (·.2) := by
      simp
    have hfeed : (feedAll {} (cs ++ [data])).1 = (s.parser.feed data).1 := by
      rw [hparser, feedAll, List.foldl_append]
      rfl
    have hpart : (cs ++ [data]).flatten <+: h.bytes ++ body := by
      rw [hcut, List.flatten_append] at hflat
      exact (List.prefix_append _ _).trans hflat
    obtain ⟨hdone, hstate⟩ := h.unfinished hno hpart
    rw [hfeed] at hdone hstate
    obtain ⟨w', hnext, hops⟩ := handleAll_data cfg env data (dataEvents id pieces ++ rest) hl hid
    have hsnd := feed_snd s.parser data
    have hd := dataEvent_digested cfg env data s
    generalize dataEvent cfg env data s = r at hd hnext hops
    cases hd with
    | other hne => exact absurd hp hne
    | rejected _ hfalse => simp [hsnd, hstate] at hfalse
    | finished _ _ hmsg =>
      rw [hdone] at hmsg
      cases hmsg
    | awaited =>
      obtain ⟨w'', s'', hl'', hflight'', hrec, howed⟩ := ih hnext hid hflight hfeed.symm
        (by rw [← hcut]; exact hflat)
      refine ⟨w'', s'', hl'', hflight'', (congrArg (fun r => recorded r.1) hops).trans hrec,
        fun c hc => ?_⟩
      refine (congrArg (fun r => owed c r.1) hops).trans (Eq.trans ?_ (howed c hc))
      simp [hc.symm]

/-- The error event of a connection whose request is in flight. -/
theorem handleAll_error (cfg : Config) (env : Env) {w : EventWorker} {ev : RecvEvent} {s : Session}
    (hl : w.sessions.lookup ev.connId = some s) (herr : ev.isError = true) :
    (w.handleAll cfg [(env, ev)]).1 = errorOps cfg env ev.error s := by
  have heq : (w.handleEvent cfg env ev []).1 = errorOps cfg env ev.error s := by
    unfold handleEvent
    simp only [hl, herr, if_true]
  rw [handleAll, handleAll]
  exact (List.append_nil _).trans heq

end EventWorker

/-- The updates complete one request as a response with status `status` that is filed as `filed`. -/
structure CompletesOnce (ops : List Op) (status : ℤ) (filed : Bool × ℕ) : Prop where
  completed : owed .completed ops = 1
  succeeded : owed .succeeded ops = filed.1.toNat
  failed : owed .failed ops = (!filed.1).toNat
  sample : ∃ sample, recorded ops = [sample] ∧ sample.httpStatus = status ∧ sample.filed = filed

/-- A failure of the connection is not filed as a response. -/
theorem toErrorClass_not_filed (ec : NetErrc) (status : ℤ) :
    (false, (toErrorClass ec).index) ≠ httpFiled status := by
  have herr : (toErrorClass ec).index ≠ 3 ∧ (toErrorClass ec).index ≠ 4 := by
    unfold toErrorClass
    split_ifs <;> decide
  intro heq
  unfold httpFiled at heq
  split_ifs at heq
  · cases congrArg Prod.fst heq
  · exact herr.2 (congrArg Prod.snd heq)
  · exact herr.1 (congrArg Prod.snd heq)

namespace Engine

open EventWorker

section CloseDelimited

variable {cfg : Config} {w : EventWorker} {s : Session} {ev : RecvEvent}
  {pieces : List (Env × Bytes)}

/-- Whatever the response was, its request is completed as a failure of the connection. -/
theorem close_delimited_failed (hp : cfg.protocol = .http) (h : ResponseHead)
    (hno : ∀ l ∈ h.lines, ¬ isContentLength l) (body : Bytes)
    (hl : w.sessions.lookup ev.connId = some s) (hid : s.connId = ev.connId)
    (hflight : s.inFlight = true) (hfresh : s.parser = {})
    (hpieces : (pieces.map (·.2)).flatten = h.bytes ++ body) (herr : ev.isError = true)
    (env : Env) :
    CompletesOnce (w.handleAll cfg (dataEvents ev.connId pieces ++ [(env, ev)])).1 0
      (false, (toErrorClass ev.error).index) := by
  have hstart : s.parser = (feedAll {} []).1 := hfresh
  have hwhole : (([] : List Bytes) ++ pieces.map (·.2)).flatten <+: h.bytes ++ body := by
    rw [List.nil_append, hpieces]
  obtain ⟨w', s', hl', hflight', hrec, howed⟩ :=
    handleAll_awaited hp hno [(env, ev)] pieces hl hid hflight hstart hwhole
  rw [handleAll_error cfg env hl' herr] at hrec
  have hops : ∀ c ≠ .bytesReceived,
      owed c (w.handleAll cfg (dataEvents ev.connId pieces ++ [(env, ev)])).1
        = owed c (errorOps cfg env ev.error s') := by
    intro c hc
    rw [howed c hc, handleAll_error cfg env hl' herr]
  refine ⟨?_, ?_, ?_, ?_⟩
  · rw [hops _ (by decide)]
    simp [errorOps, hflight']
  · rw [hops _ (by decide)]
    simp [errorOps, hflight']
  · rw [hops _ (by decide)]
    simp [errorOps, hflight']
  · rw [hrec]
    simp [errorOps, hflight', RequestSample.filed, errorIndexFromSample]

/-- **Close-delimited responses do not count as responses.** A response has a well-formed head
without `Content-Length`; it arrives in any pieces, and then the connection's error event. The http
path never completes the request according to the status code: the sample is not filed under it,
whatever it is. -/
theorem close_delimited (hp : cfg.protocol = .http) (h : ResponseHead)
    (hno : ∀ l ∈ h.lines, ¬ isContentLength l) (body : Bytes)
    (hl : w.sessions.lookup ev.connId = some s) (hid : s.connId = ev.connId)
    (hflight : s.inFlight = true) (hfresh : s.parser = {})
    (hpieces : (pieces.map (·.2)).flatten = h.bytes ++ body) (herr : ev.isError = true)
    (env : Env) :
    ¬ CompletesOnce (w.handleAll cfg (dataEvents ev.connId pieces ++ [(env, ev)])).1 h.statusCode
        (httpFiled h.statusCode) := by
  intro honce
  obtain ⟨a, ha, -, hfailed⟩ :=
    (close_delimited_failed hp h hno body hl hid hflight hfresh hpieces herr env).sample
  obtain ⟨b, hb, -, hfiled⟩ := honce.sample
  have hsame : a = b := List.singleton_injective (ha.symm.trans hb)
  rw [← hsame, hfailed] at hfiled
  exact toErrorClass_not_filed ev.error h.statusCode hfiled

end CloseDelimited

end Engine

/-! What a slot makes of the same responses. -/

/-- A slot files a response that ends with the connection by its status code. -/
theorem Slot.performGet_eof (cfg : Config) {env : Env} {s : Slot}
    (hconn : s.client.connected = true) (hssl : s.client.ssl = true)
    (hsend : env.get.sendFailure = none) (h : ResponseHead)
    (hno : ∀ l ∈ h.lines, ¬ isContentLength l) {body : Bytes} {pieces : List Bytes}
    (hne : ∀ data ∈ pieces, data ≠ []) (hflat : pieces.flatten = h.bytes ++ body)
    {rest : List SslRecv} (hrecvs : env.get.recvs = pieces.map .data ++ .data [] :: rest) :
    ∃ sample, recorded (s.performGet cfg env).1 = [sample] ∧
      sample.filed = httpsFiled h.statusCode := by
  have hgot := filed_got cfg env (SslClient.performHttpGet_got (request cfg) env.get hconn hssl)
  have hreceived : received env.get.recvs = (pieces, true) := by
    rw [hrecvs, received_append hne]
    simp [received]
  have hcs : [pieces.flatten].flatten <+: h.bytes ++ body := by simp [hflat]
  obtain ⟨hopen, hok⟩ := h.unfinished hno hcs
  obtain ⟨hdone, hstatus, -, -⟩ := ((framing h body [pieces.flatten] hcs
    fun l hl hlen => absurd hlen (hno l hl)).2 hno).2 (by simp [hflat])
  rw [show (feedAll {} [pieces.flatten]).1 = (({} : ResponseParser).feed pieces.flatten).1 from rfl]
    at hopen hok hdone hstatus
  have hended := feed_ended (p := {}) (by simp [Ended, done]) pieces.flatten
  have hstate : (({} : ResponseParser).feed pieces.flatten).1.state ≠ .done := by
    intro hstate
    rw [hended.mpr hstate] at hopen
    cases hopen
  have hending : env.get.ending
      = .closed (({} : ResponseParser).feed pieces.flatten).1.markEof.response := by
    unfold GetSys.ending
    rw [hreceived]
    dsimp only
    rw [hsend, if_neg (by simp), if_neg hstate, if_neg hok, if_neg (by simp)]
    exact if_pos hdone
  obtain ⟨sample, hrec, hfiled⟩ := hgot.1 _ (.inr hending)
  refine ⟨sample, hrec, hfiled.trans (congrArg httpsFiled hstatus)⟩

/-! ## One response with each code -/

/-- The head of a response that ends with the connection. -/
def closingHead (d1 d2 d3 : UInt8) (rest : Bytes) : HeadText where
  version := ascii "1.1"
  d1 := d1
  d2 := d2
  d3 := d3
  rest := rest
  lines := [ascii "Connection: close"]

/-- A response that succeeds, and one that does not. -/
def closingOk : ResponseHead where
  toHeadText := closingHead 50 48 48 (ascii " OK")
  version_noSpace := by decide
  digits := by decide
  long := by decide
  statusLine_noCrLf := by decide
  lines_ne := by decide
  lines_colon := by decide
  lines_noCrLf := by decide

def closingMissing : ResponseHead where
  toHeadText := closingHead 52 48 52 (ascii " Not Found")
  version_noSpace := by decide
  digits := by decide
  long := by decide
  statusLine_noCrLf := by decide
  lines_ne := by decide
  lines_colon := by decide
  lines_noCrLf := by decide

namespace Engine

open EventWorker

/-- The error event of a connection the peer has closed. -/
def peerClosed : RecvEvent := { connId := 1, isError := true, error := .ioFailed }

/-- The events of connection `1` whose peer sends `data` and closes it. -/
def sentAndClosed (data : List Bytes) : List (Env × RecvEvent) :=
  dataEvents 1 (data.map fun d => ({}, d)) ++ [(({} : Env), peerClosed)]

theorem close_delimited_missing :
    ¬ CompletesOnce
      (waiting.handleAll twoRequests
        (sentAndClosed [closingMissing.bytes ++ ascii "no", ascii "ne"])).1
      closingMissing.statusCode (httpFiled closingMissing.statusCode) := by
  have hwait : waiting.sessions.lookup 1 = some { connId := 1, inFlight := true } := by
    decide +kernel
  exact @close_delimited twoRequests waiting { connId := 1, inFlight := true } peerClosed
    [({}, closingMissing.bytes ++ ascii "no"), ({}, ascii "ne")] rfl closingMissing
    (by decide +kernel) (ascii "none") hwait rfl rfl rfl (by decide +kernel) rfl {}

/-- The response is a success, and the request is completed as a failure. -/
theorem success_cut_off :
    ¬ CompletesOnce
      (waiting.handleAll twoRequests (sentAndClosed [closingOk.bytes ++ ascii "yes"])).1
      closingOk.statusCode (httpFiled closingOk.statusCode) :=
  fun h => absurd h.succeeded (by decide +kernel)

end Engine

end TitanBench
