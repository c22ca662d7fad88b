import GrpcContract.Bridge
import GrpcContract.Proofs.Frames
import GrpcContract.Proofs.Outlets

/-!
# The request body

What a session makes of a request body depends on the bytes of the body and on how it ends, not
on how the bytes arrive. `Adapter.judge` tells it from all bytes at once.
-/

namespace GrpcContract

namespace BodyEvent

/-- The bytes of a body up to its end. -/
def bytes : List BodyEvent → List UInt8
  | .data bs :: rest => bs ++ bytes rest
  | .trailers :: rest => bytes rest
  | .error _ :: _ | .finish :: _ | [] => []

/-- The error that a body ends with, if it ends with one. -/
def failure? : List BodyEvent → Option String
  | .data _ :: rest | .trailers :: rest => failure? rest
  | .error text :: _ => some text
  | .finish :: _ | [] => none

end BodyEvent

/-- What a request body comes to. -/
inductive Verdict
  /-- Its bytes are malformed. -/
  | refused (s : Status)
  /-- It ended with an error. -/
  | broken (s : Status)
  /-- It ended well, but without the message that the call needs. -/
  | missing (s : Status)
  /-- It gave the matcher a request. -/
  | asked (request : StubRequest)

namespace Adapter

def read? (a : Adapter) (payload : List UInt8) : Option Message :=
  Message.read? a.codec.schema (a.codec.schema.messageType a.method.input) payload

/-- The end of a body after its last complete frame. -/
def judgeEnd (left : Except FrameError Deframer) (failure? : Option String) (clean : Verdict) :
    Verdict :=
  match left with
  | .error e => .refused e.toStatus
  | .ok d =>
    match failure? with
    | some text => .broken (.because .cancelled ("request body failed: " ++ text))
    | none =>
      match d.finish with
      | .error e => .refused e.toStatus
      | .ok () => clean

/-- A whole body at once: its frames from left to right, then its end. Where the client sends one
message, the first frame decides. -/
def judge (a : Adapter) (d : Deframer) (failure? : Option String) : Verdict :=
  if a.shape.isClientStreaming then
    match d.drain.1.mapM a.read? with
    | none => .refused Session.undecodable
    | some ms =>
      judgeEnd d.drain.2 failure? (.asked (.ofStream a.codec a.method (a.inputs ++ ms)))
  else
    match d.drain.1 with
    | payload :: _ =>
      match a.read? payload with
      | none => .refused Session.undecodable
      | some m => .asked (.ofMessage a.codec a.method m)
    | [] =>
      judgeEnd d.drain.2 failure?
        (.missing (.because .internal "Half-closed without a request"))

/-- The outlet of a call whose matcher has answered. -/
def answeredOutlet (a : Adapter) (answer : Except String StubResponse) : Outlet :=
  .ofOutcome a.codec.schema (a.codec.schema.messageType a.method.output)
    (StubResponse.outcome a.codec a.method answer)

theorem answeredOutlet_congr {a a' : Adapter} (hcodec : a'.codec = a.codec)
    (hmethod : a'.method = a.method) (answer : Except String StubResponse) :
    a'.answeredOutlet answer = a.answeredOutlet answer := by
  simp only [answeredOutlet, hcodec, hmethod]

variable {a : Adapter} {d d' : Deframer} {payload : List UInt8}

theorem judge_of_error {e : FrameError} (hnext : d.next = .error e) (failure? : Option String) :
    a.judge d failure? = .refused e.toStatus := by
  simp [judge, Deframer.drain_of_error hnext, judgeEnd]

theorem judge_of_undecodable (hnext : d.next = .ok (some payload, d'))
    (hread : a.read? payload = none) (failure? : Option String) :
    a.judge d failure? = .refused Session.undecodable := by
  simp [judge, Deframer.drain_of_some hnext, hread]

theorem judge_of_single (hshape : a.shape.isClientStreaming = false)
    (hnext : d.next = .ok (some payload, d')) {m : Message} (hread : a.read? payload = some m)
    (failure? : Option String) :
    a.judge d failure? = .asked (.ofMessage a.codec a.method m) := by
  simp [judge, Deframer.drain_of_some hnext, hread, hshape]

theorem judge_of_stream (hshape : a.shape.isClientStreaming = true)
    (hnext : d.next = .ok (some payload, d')) {m : Message} (hread : a.read? payload = some m)
    (failure? : Option String) :
    a.judge d failure? = judge { a with inputs := a.inputs ++ [m] } d' failure? := by
  have hshape' : shape { a with inputs := a.inputs ++ [m] } = a.shape := rfl
  have hread' : read? { a with inputs := a.inputs ++ [m] } = a.read? := rfl
  simp only [judge, hshape', hshape, ↓reduceIte, hread', Deframer.drain_of_some hnext,
    List.mapM_cons, hread]
  cases d'.drain.1.mapM a.read? with
  | none => rfl
  | some ms => simp

end Adapter

/-! ### Sessions -/

namespace Session

/-- A session that reads its body and has given nothing to its outlet. -/
structure Fresh (s : Session) : Prop where
  stage : s.stage = .reading
  completed : s.adapter.completed = false
  outlet : s.outlet = {}

/-- A session that waits for more of its body. -/
structure Resting (s : Session) : Prop extends Fresh s where
  next : s.deframer.next = .ok (none, s.deframer)

/-- Whether a session has come to a verdict about its body. -/
def Reached (s : Session) : Verdict → Prop
  | .refused status => s.stage = .ended ∧ s.outlet = .refused status
  | .broken status => s.stage = .ended ∧ s.outlet = .broken status
  | .missing status => s.stage = .ended ∧ s.outlet = .failed status
  | .asked request => s.stage = .asking request ∧ s.outlet = {}

/-- Whether two sessions are of the same call. -/
def SameCall (s s' : Session) : Prop :=
  s'.adapter.codec = s.adapter.codec ∧ s'.adapter.method = s.adapter.method

theorem Fresh.reject {s : Session} (hfresh : s.Fresh) (status : Status) :
    (s.reject status).Reached (.refused status) ∧ s.SameCall (s.reject status) := by
  simp [Session.reject, Adapter.fail, hfresh.completed, hfresh.outlet, follow, emit, Reached,
    SameCall, Outlet.give, Outlet.cancel, Outlet.close, Outlet.advancePushing, Outlet.push,
    StreamState.canAdvance, StreamState.isTerminal, StreamState.rank, Outlet.refused]

theorem drain_of_error {s : Session} {e : FrameError} (hnext : s.deframer.next = .error e) :
    s.drain = s.reject e.toStatus := by
  rw [Session.drain]
  split <;> simp_all

theorem drain_of_none {s : Session} {d : Deframer} (hnext : s.deframer.next = .ok (none, d)) :
    s.drain = s := by
  rw [Session.drain]
  split <;> simp_all

theorem drain_of_undecodable {s : Session} {payload : List UInt8} {rest : Deframer}
    (hnext : s.deframer.next = .ok (some payload, rest))
    (hread : s.adapter.read? payload = none) :
    s.drain = { s with deframer := rest }.reject undecodable := by
  have hread' : Message.read? s.schema s.inputType payload = none := hread
  rw [Session.drain]
  split <;> simp_all

/-- The message of a single-message call is what the matcher is asked about. -/
theorem Fresh.drain_of_single {s : Session} (hfresh : s.Fresh)
    (hshape : s.adapter.shape.isClientStreaming = false) {payload : List UInt8} {rest : Deframer}
    (hnext : s.deframer.next = .ok (some payload, rest)) {m : Message}
    (hread : s.adapter.read? payload = some m) :
    s.drain = { s with
      deframer := rest
      adapter := { s.adapter with completed := true }
      stage := .asking (.ofMessage s.adapter.codec s.adapter.method m) } := by
  have hread' : Message.read? s.schema s.inputType payload = some m := hread
  have hfollow : { s with deframer := rest }.follow (s.adapter.onMessage m) =
      { s with
        deframer := rest
        adapter := { s.adapter with completed := true }
        stage := .asking (.ofMessage s.adapter.codec s.adapter.method m) } := by
    simp [Adapter.onMessage, hfresh.completed, hshape, follow]
  rw [Session.drain]
  split <;> simp_all

/-- A message of a stream is kept, and draining goes on. -/
theorem Fresh.drain_of_stream {s : Session} (hfresh : s.Fresh)
    (hshape : s.adapter.shape.isClientStreaming = true) {payload : List UInt8} {rest : Deframer}
    (hnext : s.deframer.next = .ok (some payload, rest)) {m : Message}
    (hread : s.adapter.read? payload = some m) :
    s.drain = Session.drain { s with
      deframer := rest
      adapter := { s.adapter with inputs := s.adapter.inputs ++ [m] } } := by
  have hread' : Message.read? s.schema s.inputType payload = some m := hread
  have hfollow : { s with deframer := rest }.follow (s.adapter.onMessage m) =
      { s with
        deframer := rest
        adapter := { s.adapter with inputs := s.adapter.inputs ++ [m] } } := by
    simp [Adapter.onMessage, hfresh.completed, hshape, follow]
  have hstage := hfresh.stage
  rw [Session.drain]
  split <;> simp_all

/-- Draining leaves a session that waits for more, or one that has come to its verdict whatever
the body brings after it. -/
theorem Fresh.drain {s : Session} (hfresh : s.Fresh) :
    s.SameCall s.drain ∧
      ((s.drain.Resting ∧ ∀ bs failure?, s.adapter.judge (s.deframer.push bs) failure? =
          s.drain.adapter.judge (s.drain.deframer.push bs) failure?) ∨
        ∃ v, s.drain.Reached v ∧ ∀ bs failure?,
          s.adapter.judge (s.deframer.push bs) failure? = v) := by
  -- Each complete frame shortens what is buffered.
  induction hlength : s.deframer.buffer.length using Nat.strongRecOn generalizing s with
  | ind length ih =>
      cases hnext : s.deframer.next with
      | error e =>
          rw [drain_of_error hnext]
          obtain ⟨hreached, hcall⟩ := hfresh.reject e.toStatus
          exact ⟨hcall, Or.inr ⟨_, hreached, fun bs failure? =>
            Adapter.judge_of_error (Deframer.next_push_of_error hnext bs) failure?⟩⟩
      | ok taken =>
          obtain ⟨payload?, rest⟩ := taken
          cases payload? with
          | none =>
              obtain rfl := Deframer.eq_of_next_none hnext
              rw [drain_of_none hnext]
              exact ⟨⟨rfl, rfl⟩, Or.inl ⟨⟨hfresh, hnext⟩, fun _ _ => rfl⟩⟩
          | some payload =>
              have hpush := Deframer.next_push_of_some hnext
              cases hread : s.adapter.read? payload with
              | none =>
                  rw [drain_of_undecodable hnext hread]
                  have hfresh' : Fresh { s with deframer := rest } :=
                    ⟨hfresh.stage, hfresh.completed, hfresh.outlet⟩
                  obtain ⟨hreached, hcall⟩ := hfresh'.reject undecodable
                  exact ⟨hcall, Or.inr ⟨_, hreached, fun bs failure? =>
                    Adapter.judge_of_undecodable (hpush bs) hread failure?⟩⟩
              | some m =>
                  cases hshape : s.adapter.shape.isClientStreaming with
                  | false =>
                      rw [hfresh.drain_of_single hshape hnext hread]
                      exact ⟨⟨rfl, rfl⟩, Or.inr ⟨.asked _, ⟨rfl, hfresh.outlet⟩,
                        fun bs failure? =>
                          Adapter.judge_of_single hshape (hpush bs) hread failure?⟩⟩
                  | true =>
                      rw [hfresh.drain_of_stream hshape hnext hread]
                      have hfresh' : Fresh { s with
                          deframer := rest
                          adapter := { s.adapter with inputs := s.adapter.inputs ++ [m] } } :=
                        ⟨hfresh.stage, hfresh.completed, hfresh.outlet⟩
                      have hless : rest.buffer.length < length :=
                        hlength ▸ Deframer.length_next hnext
                      obtain ⟨hcall, hend⟩ := ih rest.buffer.length hless hfresh' rfl
                      have hjudge (bs : List UInt8) (failure? : Option String) :=
                        Adapter.judge_of_stream hshape (hpush bs) hread failure?
                      refine ⟨hcall, ?_⟩
                      simp only [hjudge]
                      exact hend

/-- The end of the body brings every session that waits for more to its verdict. -/
theorem Resting.finishInput {s : Session} (hrest : s.Resting) :
    s.finishInput.Reached (s.adapter.judge s.deframer none) ∧ s.SameCall s.finishInput := by
  have hdrain := Deframer.drain_of_none hrest.next
  cases hfinish : s.deframer.finish with
  | error e =>
      have hjudge : s.adapter.judge s.deframer none = .refused e.toStatus := by
        simp [Adapter.judge, hdrain, Adapter.judgeEnd, hfinish]
      rw [hjudge, Session.finishInput, hfinish]
      exact hrest.toFresh.reject e.toStatus
  | ok u =>
      rw [Session.finishInput, hfinish]
      cases hshape : s.adapter.shape.isClientStreaming with
      | true =>
          have hjudge : s.adapter.judge s.deframer none =
              .asked (.ofStream s.adapter.codec s.adapter.method s.adapter.inputs) := by
            simp [Adapter.judge, hdrain, Adapter.judgeEnd, hfinish, hshape]
          rw [hjudge]
          simp [Adapter.onInputComplete, hrest.completed, hshape, follow, Reached, SameCall,
            hrest.outlet]
      | false =>
          have hjudge : s.adapter.judge s.deframer none =
              .missing (.because .internal "Half-closed without a request") := by
            simp [Adapter.judge, hdrain, Adapter.judgeEnd, hfinish, hshape]
          rw [hjudge]
          simp [Adapter.onInputComplete, hrest.completed, hshape, Adapter.fail, follow, Reached,
            SameCall, hrest.outlet, emit, Outlet.give, Outlet.close, Outlet.advancePushing,
            Outlet.push, StreamState.canAdvance, StreamState.isTerminal, StreamState.rank,
            Outlet.failed]

/-- An error of the body breaks off every session that waits for more. -/
theorem Resting.onError {s : Session} (hrest : s.Resting) (text : String) :
    (s.onBody (.error text)).Reached (s.adapter.judge s.deframer (some text)) ∧
      s.SameCall (s.onBody (.error text)) := by
  have hdrain := Deframer.drain_of_none hrest.next
  have hjudge : s.adapter.judge s.deframer (some text) =
      .broken (.because .cancelled ("request body failed: " ++ text)) := by
    simp [Adapter.judge, hdrain, Adapter.judgeEnd]
  rw [hjudge]
  simp [onBody, hrest.stage, hrest.outlet, Reached, SameCall, Outlet.abort, Outlet.advancePushing,
    Outlet.push, StreamState.canAdvance, StreamState.isTerminal, StreamState.rank, Outlet.broken]

/-- The verdict about what is buffered and what the body still brings. -/
def verdict (s : Session) (events : List BodyEvent) : Verdict :=
  s.adapter.judge (s.deframer.push (BodyEvent.bytes events)) (BodyEvent.failure? events)

/-- An event leaves a session that waits for more and comes to the same verdict, or one that has
come to its verdict whatever follows. -/
theorem Resting.onBody {s : Session} (hrest : s.Resting) (e : BodyEvent) :
    s.SameCall (s.onBody e) ∧
      (((s.onBody e).Resting ∧ ∀ events, s.verdict (e :: events) = (s.onBody e).verdict events) ∨
        ∃ v, (s.onBody e).Reached v ∧ ∀ events, s.verdict (e :: events) = v) := by
  cases e with
  | trailers =>
      have hbody : s.onBody .trailers = s := by simp [Session.onBody, hrest.stage]
      rw [hbody]
      exact ⟨⟨rfl, rfl⟩, Or.inl ⟨hrest, fun _ => rfl⟩⟩
  | finish =>
      have hbody : s.onBody .finish = s.finishInput := by simp [Session.onBody, hrest.stage]
      obtain ⟨hreached, hcall⟩ := hrest.finishInput
      rw [hbody]
      refine ⟨hcall, Or.inr ⟨_, hreached, fun events => ?_⟩⟩
      simp only [verdict, BodyEvent.bytes, BodyEvent.failure?, Deframer.push_nil]
  | error text =>
      obtain ⟨hreached, hcall⟩ := hrest.onError text
      refine ⟨hcall, Or.inr ⟨_, hreached, fun events => ?_⟩⟩
      simp only [verdict, BodyEvent.bytes, BodyEvent.failure?, Deframer.push_nil]
  | data bs =>
      have hbody : s.onBody (.data bs) =
          Session.drain { s with deframer := s.deframer.push bs } := by
        simp [Session.onBody, hrest.stage]
      have hfresh : Fresh { s with deframer := s.deframer.push bs } :=
        ⟨hrest.stage, hrest.completed, hrest.outlet⟩
      have hverdict (events : List BodyEvent) : s.verdict (.data bs :: events) =
          verdict { s with deframer := s.deframer.push bs } events := by
        simp only [verdict, BodyEvent.bytes, BodyEvent.failure?, Deframer.push_push]
      obtain ⟨hcall, hend⟩ := hfresh.drain
      rw [← hbody] at hcall hend
      refine ⟨hcall, ?_⟩
      rcases hend with ⟨hrest', hjudge⟩ | ⟨v, hreached, hjudge⟩
      · exact Or.inl ⟨hrest', fun events => (hverdict events).trans (hjudge _ _)⟩
      · exact Or.inr ⟨v, hreached, fun events => (hverdict events).trans (hjudge _ _)⟩

theorem onAnswer_of_asking {s : Session} {request : StubRequest}
    (hstage : s.stage = .asking request) (houtlet : s.outlet = {})
    (answer : Except String StubResponse) :
    (s.onAnswer answer).stage = .ended ∧
      (s.onAnswer answer).outlet = s.adapter.answeredOutlet answer := by
  simp only [onAnswer, hstage, emit, houtlet, Adapter.answered, Outlet.foldl_give_ofOutcome]
  exact ⟨trivial, rfl⟩

end Session

/-! ### Runs -/

namespace Verdict

/-- The outlet of a call whose body came to the verdict. -/
def outlet (f : TimedMatcher) (a : Adapter) : Verdict → Outlet
  | .refused s => .refused s
  | .broken s => .broken s
  | .missing s => .failed s
  | .asked request =>
    match f request with
    | .answer _ answer => a.answeredOutlet answer
    | .silence | .crash _ => {}

/-- What the matcher was asked. -/
def requests : Verdict → List StubRequest
  | .asked request => [request]
  | _ => []

theorem outlet_congr (f : TimedMatcher) {a a' : Adapter} (hcodec : a'.codec = a.codec)
    (hmethod : a'.method = a.method) (v : Verdict) : v.outlet f a' = v.outlet f a := by
  cases v with
  | asked request => simp only [outlet, Adapter.answeredOutlet_congr hcodec hmethod]
  | _ => rfl

end Verdict

namespace TimedSession

/-- What a run without a time limit is like once the session has come to its verdict. -/
structure Settled (f : TimedMatcher) (asked : List StubRequest) (a : Adapter) (v : Verdict)
    (t : TimedSession) : Prop where
  reading : t.isReading = false
  outlet : t.session.outlet = v.outlet f a
  asked : t.asked = asked ++ v.requests

theorem run_of_not_isReading (f : TimedMatcher) {t : TimedSession} (hreading : t.isReading = false)
    (steps : List BodyStep) : run f t steps = t := by
  cases steps <;> simp [run, hreading]

/-- The session notes that the matcher is asked. -/
def ask (t : TimedSession) (request : StubRequest) : TimedSession :=
  { t with asked := t.asked ++ [request] }

/-- The session waits for what the matcher does. -/
def receive (t : TimedSession) : MatcherReply → TimedSession
  | .answer nanos answer => t.waitFor nanos (·.onAnswer answer)
  | .crash nanos => t.waitFor nanos (·.onCrash)
  | .silence => t.waitForever

theorem consult_of_ended (f : TimedMatcher) {t : TimedSession}
    (hstage : t.session.stage = .ended) : consult f t = t := by
  simp [consult, hstage]

theorem consult_of_reading (f : TimedMatcher) {t : TimedSession}
    (hstage : t.session.stage = .reading) : consult f t = t := by
  simp [consult, hstage]

theorem consult_of_asking (f : TimedMatcher) {t : TimedSession} {request : StubRequest}
    (hstage : t.session.stage = .asking request) :
    consult f t = (t.ask request).receive (f request) := by
  simp only [consult, hstage]
  cases f request <;> rfl

theorem waitFor_of_unlimited {t : TimedSession} (hlimit : t.limit? = none) (nanos : Nat)
    (next : Session → Session) :
    (t.waitFor nanos next).session = next t.session ∧
      (t.waitFor nanos next).asked = t.asked := by
  unfold waitFor
  split
  · exact ⟨rfl, rfl⟩
  · rw [hlimit]
    exact ⟨rfl, rfl⟩

/-- Once a session has come to its verdict the matcher is consulted at most once. -/
theorem settled_consult (f : TimedMatcher) {t : TimedSession} {v : Verdict}
    (hreached : t.session.Reached v) (hlimit : t.limit? = none) :
    Settled f t.asked t.session.adapter v (consult f t) := by
  cases v with
  | refused status | broken status | missing status =>
      obtain ⟨hstage, houtlet⟩ := hreached
      rw [consult_of_ended f hstage]
      refine ⟨?_, houtlet, ?_⟩
      · simp [isReading, hstage]
      · simp [Verdict.requests]
  | asked request =>
      obtain ⟨hstage, houtlet⟩ := hreached
      have hwait := waitFor_of_unlimited (t := t.ask request) hlimit
      rw [consult_of_asking f hstage]
      cases hreply : f request with
      | silence =>
          have hsilence : (t.ask request).receive .silence =
              { t.ask request with stuck := true } := by
            simp [receive, waitForever, ask, hlimit]
          rw [hsilence]
          refine ⟨?_, ?_, rfl⟩
          · simp [isReading]
          · simp [ask, houtlet, Verdict.outlet, hreply]
      | crash nanos =>
          obtain ⟨hsession, hasked⟩ := hwait nanos (·.onCrash)
          have hended : (t.ask request).session.onCrash.stage = .ended := rfl
          rw [receive]
          refine ⟨?_, ?_, hasked⟩
          · rw [isReading, hsession, hended]
            rfl
          · rw [hsession, Verdict.outlet, hreply]
            exact houtlet
      | answer nanos answer =>
          obtain ⟨hsession, hasked⟩ := hwait nanos (·.onAnswer answer)
          obtain ⟨hended, hanswered⟩ :=
            Session.onAnswer_of_asking (s := (t.ask request).session) hstage houtlet answer
          rw [receive]
          refine ⟨?_, ?_, hasked⟩
          · rw [isReading, hsession, hended]
            rfl
          · rw [hsession, hanswered, Verdict.outlet, hreply]
            rfl

theorem Settled.run {f : TimedMatcher} {asked : List StubRequest} {a : Adapter} {v : Verdict}
    {t : TimedSession} (hsettled : Settled f asked a v t) (steps : List BodyStep) :
    Settled f asked a v (TimedSession.run f t steps) := by
  rw [run_of_not_isReading f hsettled.reading]
  exact hsettled

theorem settled_consult_of_sameCall (f : TimedMatcher) {t : TimedSession} {s : Session}
    {v : Verdict} (hcall : s.SameCall t.session) (hreached : t.session.Reached v)
    (hlimit : t.limit? = none) : Settled f t.asked s.adapter v (consult f t) := by
  obtain ⟨hreading, houtlet, hasked⟩ := settled_consult f hreached hlimit
  rw [Verdict.outlet_congr f hcall.1 hcall.2] at houtlet
  exact ⟨hreading, houtlet, hasked⟩

theorem isReading_of_resting {t : TimedSession} (hrest : t.session.Resting)
    (hstuck : t.stuck = false) : t.isReading = true := by
  simp [isReading, hrest.stage, hstuck]

/-- The session takes an event of its body. -/
def hear (t : TimedSession) (e : BodyEvent) : TimedSession :=
  { t with session := t.session.onBody e, begun := t.begun + 1 }

theorem run_event (f : TimedMatcher) {t : TimedSession} (hreading : t.isReading = true)
    (e : BodyEvent) (steps : List BodyStep) :
    run f t (.event e :: steps) = run f (consult f (t.hear e)) steps := by
  simp [run, hreading, hear]

/-- A run over events comes to the verdict about the bytes that are buffered and those to come. -/
theorem settled_run (f : TimedMatcher) (events : List BodyEvent) {t : TimedSession}
    (hrest : t.session.Resting) (hlimit : t.limit? = none) (hstuck : t.stuck = false) :
    Settled f t.asked t.session.adapter (t.session.verdict events)
      (run f t (events.map .event)) := by
  induction events generalizing t with
  | nil =>
      obtain ⟨hreached, hcall⟩ := hrest.finishInput
      have hverdict : t.session.verdict [] = t.session.adapter.judge t.session.deframer none := by
        simp only [Session.verdict, BodyEvent.bytes, BodyEvent.failure?, Deframer.push_nil]
      have hbody : t.session.onBody .finish = t.session.finishInput := by
        simp [Session.onBody, hrest.stage]
      simp only [List.map_nil, run, isReading_of_resting hrest hstuck, ↓reduceIte, hbody, hverdict]
      exact settled_consult_of_sameCall f (t := { t with session := t.session.finishInput })
        hcall hreached hlimit
  | cons event events ih =>
      rw [List.map_cons, run_event f (isReading_of_resting hrest hstuck)]
      obtain ⟨hcall, ⟨hrest', hsame⟩ | ⟨v, hreached, hverdict⟩⟩ := hrest.onBody event
      · obtain ⟨hstopped, houtlet, hasked⟩ := ih (t := t.hear event) hrest' hlimit hstuck
        have hadapter := Verdict.outlet_congr f hcall.1 hcall.2
          ((t.session.onBody event).verdict events)
        rw [consult_of_reading f (t := t.hear event) hrest'.stage, hsame]
        exact ⟨hstopped, houtlet.trans hadapter, hasked⟩
      · rw [hverdict]
        exact (settled_consult_of_sameCall f (t := t.hear event) hcall hreached hlimit).run _

/-- What is enqueued for a call, the state of its response and what its matcher was asked depend on
the bytes of the request body and on how it ends, not on how the bytes arrive: they are those that
the whole body at once comes to. -/
theorem run_events (f : TimedMatcher) (c : Codec) (m : Method) (limit? : Option Nat)
    (events : List BodyEvent) :
    let verdict := Adapter.judge { codec := c, method := m }
      { limit?, buffer := BodyEvent.bytes events } (BodyEvent.failure? events)
    let t := run f { session := .start c m limit?, limit? := none } (events.map .event)
    t.session.outlet = verdict.outlet f { codec := c, method := m } ∧
      t.asked = verdict.requests := by
  have hrest : (Session.start c m limit?).Resting := ⟨⟨rfl, rfl, rfl⟩, rfl⟩
  have hrun := settled_run f events (t := { session := .start c m limit?, limit? := none })
    hrest rfl rfl
  exact ⟨hrun.outlet, hrun.asked⟩

end TimedSession

end GrpcContract
