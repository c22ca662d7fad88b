import GrpcContract.Proofs.Delivery
import GrpcContract.Proofs.Headers
import GrpcContract.Proofs.Inbound

/-!
# Served responses

Every response of a bridge is complete: either it is nothing but a status, or it is a head, one or
more frames and a status of success. The invariant is that wherever a session rests, and so
wherever its time limit can cut it short, nothing has been enqueued for its client.
-/

namespace GrpcContract

/-! ### Statuses of failures -/

theorem FrameError.isOk_toStatus (e : FrameError) : e.toStatus.isOk = false := by
  cases e <;> rfl

theorem Failure.isOk_toStatus {e : Failure} (hanswered : ∀ s, e = .answered s → s.isOk = false) :
    e.toStatus.isOk = false := by
  cases e with
  | answered s => exact hanswered s rfl
  | _ => rfl

theorem StubResponse.isOk_of_outcome_error {c : Codec} {m : Method}
    {answer : Except String StubResponse} {s : Status}
    (houtcome : StubResponse.outcome c m answer = .error s) : s.isOk = false := by
  cases answer with
  | error text =>
      obtain rfl := Except.error.inj houtcome
      rfl
  | ok r =>
      simp only [StubResponse.outcome, StubResponse.outputs] at houtcome
      cases hfailure : r.failure? with
      | some e =>
          rw [hfailure] at houtcome
          obtain rfl := Except.error.inj houtcome
          refine Failure.isOk_toStatus fun s heq => ?_
          unfold StubResponse.failure? at hfailure
          split at hfailure
          · exact absurd hfailure (by simp)
          · rename_i hok
            obtain rfl := Option.some.inj hfailure
            obtain rfl := Failure.answered.inj heq
            simpa using hok
      | none =>
          simp only [hfailure] at houtcome
          split at houtcome
          · cases hmany : c.decodeMany (c.schema.messageType m.output) (r.body?.getD "") with
            | ok ms =>
                rw [hmany] at houtcome
                cases houtcome
            | error e =>
                rw [hmany] at houtcome
                obtain rfl := Except.error.inj houtcome
                rfl
          · split at houtcome
            · cases houtcome
            · obtain rfl := Except.error.inj houtcome
              rfl

/-- A method without a stream of output has exactly one output message. -/
theorem StubResponse.length_of_outcome_ok {c : Codec} {m : Method}
    {answer : Except String StubResponse} {ms : List Message}
    (houtcome : StubResponse.outcome c m answer = .ok ms)
    (hshape : m.shape.isServerStreaming = false) : ms.length = 1 := by
  cases answer with
  | error text => cases houtcome
  | ok r =>
      simp only [StubResponse.outcome, StubResponse.outputs, hshape, Bool.false_eq_true,
        ↓reduceIte] at houtcome
      split at houtcome
      · cases houtcome
      · split at houtcome
        · obtain rfl := Except.ok.inj houtcome
          rfl
        · cases houtcome

/-- Whether a verdict that is a failure has a status of failure. -/
def Verdict.Failing : Verdict → Prop
  | .refused s | .broken s | .missing s => s.isOk = false
  | .asked _ => True

theorem Adapter.failing_judgeEnd (left : Except FrameError Deframer) (failure? : Option String)
    {clean : Verdict} (hclean : clean.Failing) : (judgeEnd left failure? clean).Failing := by
  unfold judgeEnd
  split
  · exact FrameError.isOk_toStatus _
  · split
    · rfl
    · split
      · exact FrameError.isOk_toStatus _
      · exact hclean

theorem Adapter.failing_judge (a : Adapter) (d : Deframer) (failure? : Option String) :
    (a.judge d failure?).Failing := by
  unfold judge
  split
  · split
    · rfl
    · exact failing_judgeEnd _ _ trivial
  · split
    · split
      · rfl
      · exact trivial
    · exact failing_judgeEnd _ _ rfl

/-! ### Sessions -/

/-- What is enqueued for a call of which the session is over. -/
inductive Ending (f : TimedMatcher) (a : Adapter) (asked : List StubRequest) : Outlet → Prop
  | untouched : Ending f a asked {}
  | refused {s : Status} (hstatus : s.isOk = false) : Ending f a asked (.refused s)
  | broken {s : Status} (hstatus : s.isOk = false) : Ending f a asked (.broken s)
  | failed {s : Status} (hstatus : s.isOk = false) : Ending f a asked (.failed s)
  | answered {request : StubRequest} {nanos : Nat} {answer : Except String StubResponse}
    (hasked : asked = [request]) (hreply : f request = .answer nanos answer) :
    Ending f a asked (a.answeredOutlet answer)

theorem Session.onDeadline_of_untouched {s : Session} (hstage : s.stage ≠ .ended)
    (houtlet : s.outlet = {}) :
    s.onDeadline.stage = .ended ∧
      s.onDeadline.outlet = .broken (.because .deadlineExceeded "Deadline exceeded") := by
  unfold Session.onDeadline
  split
  · rename_i hended
    exact absurd hended hstage
  · exact ⟨rfl, by rw [houtlet]; rfl⟩

namespace TimedSession

/-- Where a session of a call can be between two steps of its body: it waits for more of the body
and nothing is enqueued, or it is over. -/
inductive Kept (f : TimedMatcher) (a : Adapter) (t : TimedSession) : Prop
  | reading (hrest : t.session.Resting) (hcodec : t.session.adapter.codec = a.codec)
    (hmethod : t.session.adapter.method = a.method) (hasked : t.asked = [])
    (hstuck : t.stuck = false)
  | ended (hreading : t.isReading = false) (hend : Ending f a t.asked t.session.outlet)

/-- After a wait the session goes on, or its time limit has cut it short. -/
theorem waitFor_cases (t : TimedSession) (nanos : Nat) (next : Session → Session) :
    ((t.waitFor nanos next).session = next t.session ∨
        (t.waitFor nanos next).session = t.session.onDeadline) ∧
      (t.waitFor nanos next).asked = t.asked ∧ (t.waitFor nanos next).stuck = t.stuck := by
  unfold waitFor
  split
  · exact ⟨Or.inl rfl, rfl, rfl⟩
  · split
    · split
      · exact ⟨Or.inr rfl, rfl, rfl⟩
      · exact ⟨Or.inl rfl, rfl, rfl⟩
    · exact ⟨Or.inl rfl, rfl, rfl⟩

theorem Kept.ending {f : TimedMatcher} {a : Adapter} {t : TimedSession} (hkept : Kept f a t) :
    Ending f a t.asked t.session.outlet := by
  cases hkept with
  | ended hreading hend => exact hend
  | reading hrest hcodec hmethod hasked hstuck =>
      rw [hrest.outlet]
      exact .untouched

theorem kept_of_ended {f : TimedMatcher} {a : Adapter} {s : Session} {t : TimedSession}
    (hsession : t.session = s) (hstage : s.stage = .ended) (hend : Ending f a t.asked s.outlet) :
    Kept f a t :=
  .ended (by simp [isReading, hsession, hstage]) (hsession ▸ hend)

theorem kept_of_deadline {f : TimedMatcher} {a : Adapter} {s : Session} {t : TimedSession}
    (hstage : s.stage ≠ .ended) (houtlet : s.outlet = {}) (hcut : t.session = s.onDeadline) :
    Kept f a t := by
  obtain ⟨hended, hbroken⟩ := Session.onDeadline_of_untouched hstage houtlet
  exact kept_of_ended hcut hended (hbroken ▸ .broken rfl)

theorem kept_waitForever {f : TimedMatcher} {a : Adapter} {t : TimedSession}
    (hstage : t.session.stage ≠ .ended) (houtlet : t.session.outlet = {}) :
    Kept f a t.waitForever := by
  unfold waitForever
  split
  · exact kept_of_deadline hstage houtlet rfl
  · refine .ended (by simp [isReading]) ?_
    simp only [houtlet]
    exact .untouched

/-- Once a session has come to its verdict, consulting the matcher ends it. -/
theorem kept_consult {f : TimedMatcher} {a : Adapter} {t : TimedSession} {v : Verdict}
    (hfailing : v.Failing) (hreached : t.session.Reached v)
    (hcodec : t.session.adapter.codec = a.codec) (hmethod : t.session.adapter.method = a.method)
    (hasked : t.asked = []) : Kept f a (consult f t) := by
  cases v with
  | refused s =>
      obtain ⟨hstage, houtlet⟩ := hreached
      rw [consult_of_ended f hstage]
      exact kept_of_ended rfl hstage (houtlet ▸ .refused hfailing)
  | broken s =>
      obtain ⟨hstage, houtlet⟩ := hreached
      rw [consult_of_ended f hstage]
      exact kept_of_ended rfl hstage (houtlet ▸ .broken hfailing)
  | missing s =>
      obtain ⟨hstage, houtlet⟩ := hreached
      rw [consult_of_ended f hstage]
      exact kept_of_ended rfl hstage (houtlet ▸ .failed hfailing)
  | asked request =>
      obtain ⟨hstage, houtlet⟩ := hreached
      have hwaiting : (t.ask request).session.stage ≠ .ended := by simp [ask, hstage]
      rw [consult_of_asking f hstage]
      cases hreply : f request with
      | silence => exact kept_waitForever hwaiting houtlet
      | crash nanos =>
          obtain ⟨hcrash | hcut, -, -⟩ := waitFor_cases (t.ask request) nanos (·.onCrash)
          · have houtlet' : (t.ask request).session.onCrash.outlet = {} := houtlet
            exact kept_of_ended hcrash rfl (houtlet' ▸ .untouched)
          · exact kept_of_deadline hwaiting houtlet hcut
      | answer nanos answer =>
          obtain ⟨hanswer | hcut, hasked', -⟩ :=
            waitFor_cases (t.ask request) nanos (·.onAnswer answer)
          · obtain ⟨hended, houtlet'⟩ :=
              Session.onAnswer_of_asking (s := (t.ask request).session) hstage houtlet answer
            have hone : ((t.ask request).waitFor nanos (·.onAnswer answer)).asked = [request] := by
              rw [hasked', ask, hasked]
              rfl
            have hsame : (t.ask request).session.adapter.answeredOutlet answer =
                a.answeredOutlet answer :=
              Adapter.answeredOutlet_congr hcodec hmethod answer
            refine kept_of_ended hanswer hended ?_
            rw [houtlet', hsame]
            exact .answered hone hreply
          · exact kept_of_deadline hwaiting houtlet hcut

theorem kept_onBody {f : TimedMatcher} {a : Adapter} {t t' : TimedSession}
    (hrest : t.session.Resting) (hcodec : t.session.adapter.codec = a.codec)
    (hmethod : t.session.adapter.method = a.method) (hasked : t.asked = [])
    (hstuck : t.stuck = false) (e : BodyEvent) (hsession : t'.session = t.session.onBody e)
    (hasked' : t'.asked = t.asked) (hstuck' : t'.stuck = t.stuck) : Kept f a (consult f t') := by
  obtain ⟨hcall, hend⟩ := hrest.onBody e
  rw [← hsession] at hcall hend
  rcases hend with ⟨hrest', -⟩ | ⟨v, hreached, hverdict⟩
  · rw [consult_of_reading f hrest'.stage]
    exact .reading hrest' (hcall.1.trans hcodec) (hcall.2.trans hmethod) (hasked'.trans hasked)
      (hstuck'.trans hstuck)
  · have hfailing : v.Failing := hverdict [] ▸ Adapter.failing_judge ..
    exact kept_consult hfailing hreached (hcall.1.trans hcodec) (hcall.2.trans hmethod)
      (hasked'.trans hasked)

/-- Whatever a request body brings and whenever, a run of its session ends in one of the endings. -/
theorem ending_run {f : TimedMatcher} {a : Adapter} (steps : List BodyStep) {t : TimedSession}
    (hkept : Kept f a t) :
    Ending f a (run f t steps).asked (run f t steps).session.outlet := by
  induction steps generalizing t with
  | nil =>
      cases hkept with
      | ended hreading hend =>
          rw [run_of_not_isReading f hreading]
          exact hend
      | reading hrest hcodec hmethod hasked hstuck =>
          have hend : Kept f a (run f t []) := by
            simp only [run, isReading_of_resting hrest hstuck, ↓reduceIte]
            exact kept_onBody hrest hcodec hmethod hasked hstuck .finish rfl rfl rfl
          exact hend.ending
  | cons step steps ih =>
      cases hkept with
      | ended hreading hend =>
          rw [run_of_not_isReading f hreading]
          exact hend
      | reading hrest hcodec hmethod hasked hstuck =>
          have hreading := isReading_of_resting hrest hstuck
          have hstage : t.session.stage ≠ .ended := by simp [hrest.stage]
          simp only [run, hreading, Bool.not_true, Bool.false_eq_true, ↓reduceIte]
          cases step with
          | event e =>
              exact ih (kept_onBody hrest hcodec hmethod hasked hstuck e rfl rfl rfl)
          | silence => exact ih (kept_waitForever hstage hrest.outlet)
          | wait nanos =>
              refine ih ?_
              obtain ⟨hgo | hcut, hasked', hstuck'⟩ :=
                waitFor_cases { t with begun := t.begun + 1 } nanos id
              · exact .reading (hgo ▸ hrest) (hgo ▸ hcodec) (hgo ▸ hmethod)
                  (hasked'.trans hasked) (hstuck'.trans hstuck)
              · exact kept_of_deadline hstage hrest.outlet hcut

end TimedSession

/-! ### Responses -/

namespace Bridge

theorem dispatch_of_verb_ne (b : Bridge) {r : HttpRequest} (hverb : r.verb ≠ "POST") :
    b.dispatch r =
      .error (.ofStatus (.because .unimplemented s!"HTTP method {r.verb} is not supported")) := by
  simp [dispatch, hverb, bind, Except.bind, throw, throwThe, MonadExceptOf.throw]

theorem dispatch_of_contentType (b : Bridge) {r : HttpRequest} (hverb : r.verb = "POST")
    (hannounces : r.headers.announcesGrpc = false) :
    b.dispatch r = .error
      { ResponseHead.ofStatus (.because .internal "Content type is not application/grpc") with
        status := 415 } := by
  simp [dispatch, hverb, hannounces, bind, Except.bind, throw, throwThe, MonadExceptOf.throw]

/-- A POST of the right content type is a call of the method at its path, unless it is compressed
or there is no such method. -/
theorem dispatch_of_post (b : Bridge) {r : HttpRequest} (hverb : r.verb = "POST")
    (hannounces : r.headers.announcesGrpc = true) :
    b.dispatch r =
      match (r.headers.get? HeaderName.grpcEncoding).filter (· ≠ headerValue identityEncoding) with
      | some encoding => .error (.ofStatus (.because .unimplemented
          ("Message compression " ++ Text.quoteBytes encoding ++ " is not supported")))
      | none =>
        match b.registry.resolve r.path with
        | .ok m => .ok m
        | .error _ => .error (.ofStatus (.because .unimplemented "Method not found")) := by
  cases hencoding : r.headers.get? HeaderName.grpcEncoding with
  | none =>
      cases hresolve : b.registry.resolve r.path <;>
        simp [dispatch, hverb, hannounces, hencoding, hresolve, throw, throwThe,
          MonadExceptOf.throw, pure, Except.pure]
  | some encoding =>
      by_cases hidentity : encoding = headerValue identityEncoding
      · have hfilter : (some encoding).filter (· ≠ headerValue identityEncoding) = none := by
          simp [Option.filter_some, hidentity]
        rw [hfilter]
        cases hresolve : b.registry.resolve r.path <;>
          simp [dispatch, hverb, hannounces, hencoding, hidentity, hresolve, throw, throwThe,
            MonadExceptOf.throw, pure, Except.pure]
      · have hfilter : (some encoding).filter (· ≠ headerValue identityEncoding) =
            some encoding := by
          simp [Option.filter_some, hidentity]
        rw [hfilter]
        simp [dispatch, hverb, hannounces, hencoding, hidentity, Except.bind, throw, throwThe,
          MonadExceptOf.throw, bind]

/-- A refused request gets a status of failure; only a POST of another content type gets another
HTTP status than 200. -/
theorem dispatch_error {b : Bridge} {r : HttpRequest} {head : ResponseHead}
    (hdispatch : b.dispatch r = .error head) :
    ∃ s : Status, s.isOk = false ∧ head = { ResponseHead.ofStatus s with
      status := if r.verb = "POST" ∧ r.headers.announcesGrpc = false then 415 else 200 } := by
  by_cases hverb : r.verb = "POST"
  · cases hannounces : r.headers.announcesGrpc with
    | false =>
        rw [dispatch_of_contentType b hverb hannounces] at hdispatch
        obtain rfl := Except.error.inj hdispatch
        refine ⟨.because .internal "Content type is not application/grpc", rfl, ?_⟩
        simp [hverb]
    | true =>
        rw [dispatch_of_post b hverb hannounces] at hdispatch
        simp only [reduceCtorEq, and_false, ↓reduceIte]
        split at hdispatch
        · obtain rfl := Except.error.inj hdispatch
          exact ⟨_, rfl, rfl⟩
        · split at hdispatch
          · cases hdispatch
          · obtain rfl := Except.error.inj hdispatch
            exact ⟨_, rfl, rfl⟩
  · rw [dispatch_of_verb_ne b hverb] at hdispatch
    obtain rfl := Except.error.inj hdispatch
    refine ⟨.because .unimplemented s!"HTTP method {r.verb} is not supported", rfl, ?_⟩
    simp [hverb, ResponseHead.ofStatus, ResponseHead.ofHeaders]

theorem dispatch_ok {b : Bridge} {r : HttpRequest} {m : Method} (hdispatch : b.dispatch r = .ok m) :
    r.verb = "POST" ∧ r.headers.announcesGrpc = true := by
  by_cases hverb : r.verb = "POST"
  · cases hannounces : r.headers.announcesGrpc with
    | false =>
        rw [dispatch_of_contentType b hverb hannounces] at hdispatch
        cases hdispatch
    | true => exact ⟨hverb, rfl⟩
  · rw [dispatch_of_verb_ne b hverb] at hdispatch
    cases hdispatch

/-- The ending of the session that serves a request of a known method. -/
theorem ending_serve {b : Bridge} (f : TimedMatcher) {r : HttpRequest} {m : Method}
    (hdispatch : b.dispatch r = .ok m) :
    ∃ outlet, Ending f { codec := b.codec, method := m } (b.serve f r).asked outlet ∧
      ((b.serve f r).head, (b.serve f r).body) = b.respond outlet := by
  have hkept : TimedSession.Kept f { codec := b.codec, method := m }
      { session := b.session m, limit? := b.limit? r.headers } :=
    .reading ⟨⟨rfl, rfl, rfl⟩, rfl⟩ rfl rfl rfl rfl
  have hend := TimedSession.ending_run r.body hkept
  simp only [serve, hdispatch]
  exact ⟨_, hend, rfl⟩

end Bridge

namespace Served

/-- Whether some messages are what the matcher's answer to a call of the method comes to, the
matcher having been asked once. -/
def Translates (b : Bridge) (f : TimedMatcher) (r : HttpRequest) (served : Served) (m : Method)
    (ms : List Message) : Prop :=
  b.dispatch r = .ok m ∧ ∃ request nanos answer, served.asked = [request] ∧
    f request = .answer nanos answer ∧ StubResponse.outcome b.codec m answer = .ok ms

/-- A response that is nothing but a status. The status is OK only for a call that went well
without any output. -/
structure StatusOnly (b : Bridge) (f : TimedMatcher) (r : HttpRequest) (served : Served) :
    Prop where
  ended : served.head.ended = true
  httpStatus : served.head.status =
    if r.verb = "POST" ∧ r.headers.announcesGrpc = false then 415 else 200
  contentType : served.head.headers.get? HeaderName.contentType = some (headerValue grpcContentType)
  grpcStatus : ∃ code : Code,
    served.head.headers.get? HeaderName.grpcStatus = some (headerValue (toString code.toNat)) ∧
      (code = .ok → ∃ m, served.Translates b f r m [])
  body : served.body = []

/-- A response of frames, one for each output message, and a status of success after them. -/
structure Delivers (b : Bridge) (f : TimedMatcher) (r : HttpRequest) (served : Served) : Prop where
  ended : served.head.ended = false
  httpStatus : served.head.status = 200
  contentType : served.head.headers.get? HeaderName.contentType = some (headerValue grpcContentType)
  grpcStatus : served.head.headers.get? HeaderName.grpcStatus = none
  body : ∃ m ms trailers, served.Translates b f r m ms ∧ ms ≠ [] ∧
    (m.shape.isServerStreaming = false → ms.length = 1) ∧
    trailers.get? HeaderName.grpcStatus = some (headerValue "0") ∧
    served.body = ms.map (fun x =>
      .data (Frame.encode (x.write b.schema (b.schema.messageType m.output)))) ++
        [.trailers trailers]

end Served

namespace Bridge

theorem statusOnly_of_head {b : Bridge} {f : TimedMatcher} {r : HttpRequest} {served : Served}
    {s : Status} (hhead : served.head = { ResponseHead.ofStatus s with
      status := if r.verb = "POST" ∧ r.headers.announcesGrpc = false then 415 else 200 })
    (hbody : served.body = []) (hok : s.isOk = true → ∃ m, served.Translates b f r m []) :
    served.StatusOnly b f r := by
  refine ⟨by rw [hhead]; rfl, by rw [hhead], ?_, ⟨s.code, ?_, ?_⟩, hbody⟩
  · rw [hhead]
    exact ResponseHead.contentType_ofStatus s
  · rw [hhead]
    exact ResponseHead.grpcStatus_ofStatus s
  · intro hcode
    exact hok (by simp [Status.isOk, hcode])

theorem statusOnly_of_ofStatus {b : Bridge} {f : TimedMatcher} {r : HttpRequest} {m : Method}
    {s : Status} (hdispatch : b.dispatch r = .ok m)
    (hserved : ((b.serve f r).head, (b.serve f r).body) = (.ofStatus s, []))
    (hok : s.isOk = true → ∃ m, (b.serve f r).Translates b f r m []) :
    (b.serve f r).StatusOnly b f r := by
  obtain ⟨hverb, hannounces⟩ := dispatch_ok hdispatch
  obtain ⟨hhead, hbody⟩ := Prod.mk.inj hserved
  refine statusOnly_of_head ?_ hbody hok
  rw [hhead]
  simp [hannounces, ResponseHead.ofStatus, ResponseHead.ofHeaders]

theorem delivers_of_respond {b : Bridge} {f : TimedMatcher} {r : HttpRequest} {m : Method}
    {x : Message} {ms : List Message} (htranslates : (b.serve f r).Translates b f r m (x :: ms))
    (hserved : ((b.serve f r).head, (b.serve f r).body) =
      b.respond (.ofOutcome b.schema (b.schema.messageType m.output) (.ok (x :: ms)))) :
    (b.serve f r).Delivers b f r := by
  obtain ⟨hhead, hbody⟩ := Prod.mk.inj (hserved.trans (respond_delivered b _ _))
  have ⟨_, _, _, _, _, _, houtcome⟩ := htranslates
  refine ⟨?_, ?_, ?_, ?_, m, x :: ms, Status.ok.headers, htranslates, List.cons_ne_nil x ms,
    StubResponse.length_of_outcome_ok houtcome, ?_, ?_⟩
  · rw [hhead]
    rfl
  · rw [hhead]
    rfl
  · rw [hhead]
    rfl
  · rw [hhead]
    rfl
  · exact Status.get?_grpcStatus_insertStatus Headers.empty .ok
  · rw [hbody]
    simp [Function.comp_def]

/-- The response of a call whose matcher has answered shows what the answer comes to. -/
theorem serve_answered {b : Bridge} {f : TimedMatcher} {r : HttpRequest} {m : Method}
    {answer : Except String StubResponse}
    (htranslates : ∀ ms, StubResponse.outcome b.codec m answer = .ok ms →
      (b.serve f r).Translates b f r m ms)
    (hdispatch : b.dispatch r = .ok m)
    (hserved : ((b.serve f r).head, (b.serve f r).body) =
      b.respond (Adapter.answeredOutlet { codec := b.codec, method := m } answer)) :
    (b.serve f r).StatusOnly b f r ∨ (b.serve f r).Delivers b f r := by
  simp only [Adapter.answeredOutlet] at hserved
  cases houtcome : StubResponse.outcome b.codec m answer with
  | error s =>
      have hstatus := StubResponse.isOk_of_outcome_error houtcome
      rw [houtcome] at hserved
      exact Or.inl (statusOnly_of_ofStatus hdispatch (hserved.trans (respond_failed b s))
        fun hok => absurd hok (by simp [hstatus]))
  | ok ms =>
      rw [houtcome] at hserved
      cases ms with
      | nil =>
          exact Or.inl (statusOnly_of_ofStatus hdispatch (hserved.trans (respond_failed b .ok))
            fun _ => ⟨m, htranslates [] houtcome⟩)
      | cons x ms => exact Or.inr (delivers_of_respond (htranslates (x :: ms) houtcome) hserved)

theorem serve_cases (b : Bridge) (f : TimedMatcher) (r : HttpRequest) :
    (b.serve f r).StatusOnly b f r ∨ (b.serve f r).Delivers b f r := by
  cases hdispatch : b.dispatch r with
  | error head =>
      obtain ⟨s, hstatus, hhead⟩ := dispatch_error hdispatch
      have hserve : b.serve f r = { head } := by simp [serve, hdispatch]
      rw [hserve]
      exact Or.inl (statusOnly_of_head hhead rfl fun hok => absurd hok (by simp [hstatus]))
  | ok m =>
      obtain ⟨outlet, hend, hrespond⟩ := ending_serve f hdispatch
      have hfailing {s : Status} (hstatus : s.isOk = false)
          (houtlet : b.respond outlet = (.ofStatus s, [])) :
          (b.serve f r).StatusOnly b f r ∨ (b.serve f r).Delivers b f r :=
        Or.inl (statusOnly_of_ofStatus hdispatch (hrespond.trans houtlet)
          fun hok => absurd hok (by simp [hstatus]))
      generalize hasked : (b.serve f r).asked = asked at hend
      cases hend with
      | untouched => exact hfailing rfl (respond_untouched b)
      | refused hstatus => exact hfailing hstatus (respond_refused b _)
      | broken hstatus => exact hfailing hstatus (respond_broken b _)
      | failed hstatus => exact hfailing hstatus (respond_failed b _)
      | @answered request nanos answer hone hreply =>
          exact serve_answered (fun ms houtcome =>
            ⟨hdispatch, request, nanos, answer, hasked.trans hone, hreply, houtcome⟩)
            hdispatch hrespond

/-- Every response of a bridge is complete, whatever the request, the matcher, the settings and the
moment at which the time limit is over: it is nothing but a status, or else frames of output with a
status of success after them, never both; and its body never fails. -/
theorem serve_complete (b : Bridge) (f : TimedMatcher) (r : HttpRequest) :
    ((b.serve f r).StatusOnly b f r ∨ (b.serve f r).Delivers b f r) ∧
      ¬((b.serve f r).StatusOnly b f r ∧ (b.serve f r).Delivers b f r) ∧
      ∀ s, .error s ∉ (b.serve f r).body := by
  have hcases := serve_cases b f r
  refine ⟨hcases, fun ⟨hstatus, hdelivers⟩ => ?_, fun s hmem => ?_⟩
  · exact absurd (hstatus.ended.symm.trans hdelivers.ended) (by decide)
  · rcases hcases with hstatus | hdelivers
    · rw [hstatus.body] at hmem
      exact absurd hmem List.not_mem_nil
    · obtain ⟨m, ms, trailers, -, -, -, -, hbody⟩ := hdelivers.body
      rw [hbody] at hmem
      simp at hmem

end Bridge

end GrpcContract
