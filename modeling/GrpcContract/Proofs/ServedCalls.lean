import GrpcContract.Proofs.Exchange
import Mathlib

/-!
# Calls of the sample server

What a call comes to, from the bytes of its request, in whatever chunks they arrive, to the messages
and the status that a client reads of the response.
-/

namespace GrpcContract.Sample

/-! ### Responses read by a client -/

/-- A response that is nothing but a status has no messages. -/
theorem readResponse_ofStatus (t : MessageType) {served : Served} {s : Status}
    (hserved : (served.head, served.body) = (.ofStatus s, [])) :
    ∃ r, readResponse t served = .ok r ∧ r.messages = [] ∧ r.status.code = s.code := by
  obtain ⟨hhead, hbody⟩ := Prod.mk.inj hserved
  have hstatus := Headers.status?_of_get? (ResponseHead.grpcStatus_ofStatus s)
  have hdrain : Deframer.drain { limit? := none, buffer := [] } = ([], .ok { limit? := none }) :=
    Deframer.drain_of_none rfl
  refine ⟨⟨t, [], ⟨s.code, (ResponseHead.ofStatus s).headers.statusMessage?⟩⟩, ?_, rfl, rfl⟩
  rw [readResponse, hhead, hbody]
  simp only [List.flatMap_nil, hdrain, List.findSome?_nil, Option.bind_none, hstatus]
  rfl

/-- The messages of a response are read in their order. -/
theorem readResponse_delivered {α : Type} (t : MessageType) (payload : α → List UInt8)
    (received : α → Message) {as : List α} {served : Served}
    (hsize : ∀ a ∈ as, (payload a).length < 0x100000000)
    (hread : ∀ a ∈ as, Message.read? schema t (payload a) = some (received a))
    (hserved : (served.head, served.body) = (.ofHeaders initialHeaders false,
      as.map (fun a => .data (Frame.encode (payload a))) ++ [.trailers Status.ok.headers])) :
    ∃ r, readResponse t served = .ok r ∧ r.messages = as.map received ∧ r.status.code = .ok := by
  obtain ⟨hhead, hbody⟩ := Prod.mk.inj hserved
  have hstatus : Status.ok.headers.status? = some ⟨.ok, Status.ok.headers.statusMessage?⟩ :=
    Headers.status?_of_get? (Status.get?_grpcStatus_insertStatus .empty .ok)
  have htrailers : as.findSome? (fun _ => (none : Option Headers)) = none := by simp
  have hallowed : ∀ p ∈ as.map payload, Deframer.allows none p.length :=
    List.forall_mem_map.mpr fun a ha => ⟨hsize a ha, by simp⟩
  have hdrain := Deframer.drain_encode hallowed
  rw [List.flatMap_map] at hdrain
  refine ⟨⟨t, as.map received, ⟨.ok, Status.ok.headers.statusMessage?⟩⟩, ?_, rfl, rfl⟩
  rw [readResponse, hhead, hbody]
  simp only [List.flatMap_append, List.flatMap_map, List.flatMap_cons, List.flatMap_nil,
    List.append_nil, hdrain, List.findSome?_append, List.findSome?_cons, List.findSome?_map,
    Function.comp_def, htrailers, Option.none_or, Option.bind_some, hstatus]
  rw [mapM_map_ok fun a ha => by rw [hread a ha]; rfl]
  rfl

/-- A response whose first payload is no message cannot be read. -/
theorem readResponse_undecodable {t : MessageType} {served : Served} {bytes payload : List UInt8}
    {rest : Deframer} (hnext : Deframer.next { limit? := none, buffer := bytes } =
      .ok (some payload, rest))
    (hread : Message.read? schema t payload = none)
    (hserved : (served.head, served.body) = (.ofHeaders initialHeaders false,
      [.data bytes, .trailers Status.ok.headers])) :
    ∃ e, readResponse t served = .error e := by
  obtain ⟨hhead, hbody⟩ := Prod.mk.inj hserved
  refine ⟨"the bytes are no message of type " ++ t.name, ?_⟩
  rw [readResponse, hhead, hbody]
  simp only [List.flatMap_cons, List.flatMap_nil, List.append_nil, Deframer.drain_of_some hnext,
    List.mapM_cons, hread]
  rfl

/-! ### Methods -/

theorem resolve_method : ∀ m ∈ service.methods, bridge.registry.resolve m.path = .ok m := by
  have hmethods : service.methods =
      [unaryMethod, clientStreamingMethod, serverStreamingMethod, bidiStreamingMethod] := rfl
  intro m hm
  simp only [hmethods, List.mem_cons, List.not_mem_nil, or_false] at hm
  rcases hm with rfl | rfl | rfl | rfl
  · cbv
  · cbv
  · cbv
  · cbv

/-! ### Requests in chunks -/

/-- The bytes of a call's messages, each in a frame. -/
def framesOf (t : MessageType) (ms : List Message) : List UInt8 :=
  ms.flatMap fun m => Frame.encode (m.write schema t)

/-- A call whose bytes arrive in chunks. -/
def chunkedRequest (path : String) (chunks : List (List UInt8)) : HttpRequest where
  path
  headers := StubRequest.callHeaders
  body := chunks.map fun chunk => .event (.data chunk)

/-- Whether the server ends every call of a method with some inputs as expected: however the bytes
of the request are cut into chunks, a client reads messages with these values, and a status with
this code. -/
def Answers (m : Method) (inputs : List Message) (values : List (List Int)) (code : Code) : Prop :=
  ∀ chunks : List (List UInt8), chunks.flatten = framesOf (schema.messageType m.input) inputs →
    ∃ served r, server.answer (chunkedRequest m.path chunks) = .call served ∧
      readResponse (schema.messageType m.output) served = .ok r ∧
      r.messages.map (valuesOf (schema.messageType m.output)) = values ∧ r.status.code = code

theorem bytes_data (chunks : List (List UInt8)) :
    BodyEvent.bytes (chunks.map .data) = chunks.flatten := by
  induction chunks with
  | nil => rfl
  | cons chunk chunks ih => rw [List.map_cons, BodyEvent.bytes, ih, List.flatten_cons]

theorem failure?_data (chunks : List (List UInt8)) :
    BodyEvent.failure? (chunks.map .data) = none := by
  induction chunks with
  | nil => rfl
  | cons chunk chunks ih => rw [List.map_cons, BodyEvent.failure?, ih]

/-- The head and body of the response to all bytes of a call at once. -/
def responseTo (m : Method) (bytes : List UInt8) : ResponseHead × List BodyPart :=
  bridge.respond ((Adapter.judge { codec := bridge.codec, method := m }
    { limit? := some Reply.messageLimit, buffer := bytes } none).outlet servedStore
      { codec := bridge.codec, method := m })

theorem answer_chunkedRequest {m : Method} (hmethod : m ∈ service.methods)
    (chunks : List (List UInt8)) :
    ∃ served, server.answer (chunkedRequest m.path chunks) = .call served ∧
      (served.head, served.body) = responseTo m chunks.flatten := by
  have hannounces : (chunkedRequest m.path chunks).headers.announcesGrpc = true := by
    have hheaders : StubRequest.callHeaders.announcesGrpc = true := by cbv
    exact hheaders
  have hencoding : (chunkedRequest m.path chunks).headers.get? HeaderName.grpcEncoding = none := rfl
  have hdispatch : bridge.dispatch (chunkedRequest m.path chunks) = .ok m := by
    have hpath : (chunkedRequest m.path chunks).path = m.path := rfl
    rw [Bridge.dispatch_of_post bridge rfl hannounces, hencoding, hpath, resolve_method m hmethod]
    rfl
  have hunlimited : bridge.limit? (chunkedRequest m.path chunks).headers = none := rfl
  have hbody : (chunkedRequest m.path chunks).body =
      (chunks.map BodyEvent.data).map .event := by
    simp [chunkedRequest]
  have hrun := TimedSession.settled_run servedStore (chunks.map .data)
    (t := { session := bridge.session m, limit? := none }) ⟨⟨rfl, rfl, rfl⟩, rfl⟩ rfl rfl
  refine ⟨bridge.serve servedStore (chunkedRequest m.path chunks), ?_, ?_⟩
  · rw [Switch.answer, if_pos hannounces]
    rfl
  · simp only [Bridge.serve, hdispatch, hunlimited, hbody, hrun.outlet, Session.verdict,
      bytes_data, failure?_data]
    rfl

/-- A response that is nothing but a status ends the call with its code and no messages. -/
theorem answers_of_status {m : Method} {inputs : List Message} {s : Status}
    (hmethod : m ∈ service.methods)
    (hresponse : responseTo m (framesOf (schema.messageType m.input) inputs) =
      (.ofStatus s, [])) : Answers m inputs [] s.code := by
  intro chunks hchunks
  obtain ⟨served, hcall, hserved⟩ := answer_chunkedRequest hmethod chunks
  rw [hchunks, hresponse] at hserved
  obtain ⟨r, hread, hmessages, hcode⟩ := readResponse_ofStatus (schema.messageType m.output) hserved
  exact ⟨served, r, hcall, hread, by rw [hmessages]; rfl, hcode⟩

/-- Calls of the same inputs end in one way. -/
theorem Answers.unique {m : Method} {inputs : List Message} {values values' : List (List Int)}
    {code code' : Code} (hanswers : Answers m inputs values code)
    (hanswers' : Answers m inputs values' code') : values = values' ∧ code = code' := by
  have hchunks : [framesOf (schema.messageType m.input) inputs].flatten =
      framesOf (schema.messageType m.input) inputs := List.flatten_singleton
  obtain ⟨served, r, hcall, hread, hvalues, hcode⟩ := hanswers _ hchunks
  obtain ⟨served', r', hcall', hread', hvalues', hcode'⟩ := hanswers' _ hchunks
  obtain rfl := Switch.Answer.call.inj (hcall.symm.trans hcall')
  obtain rfl := Except.ok.inj (hread.symm.trans hread')
  exact ⟨hvalues.symm.trans hvalues', hcode.symm.trans hcode'⟩

/-! ### Calls that reach the store -/

/-- Whether the inputs of a call of the server reach the store. -/
structure Arrives (m : Method) (inputs : List Message) : Prop where
  method : m ∈ service.methods
  one : m.shape.isClientStreaming = false → ∃ x, inputs = [x]
  survives : ∀ x ∈ inputs, x.Survives schema (schema.messageType m.input)

section Answers

variable {m : Method} {inputs : List Message} (harrives : Arrives m inputs)
include harrives

theorem Arrives.responseTo_eq :
    responseTo m (framesOf (schema.messageType m.input) inputs) =
      bridge.respond ((Verdict.asked (.ofInputs bridge.codec m inputs)).outlet servedStore
        { codec := bridge.codec, method := m }) := by
  have hjudge : Adapter.judge { codec := bridge.codec, method := m }
      { limit? := some Reply.messageLimit
        buffer := framesOf (schema.messageType m.input) inputs } none =
      .asked (.ofInputs bridge.codec m inputs) :=
    Adapter.judge_encoded harrives.one harrives.survives
  rw [responseTo, hjudge]

variable {answer : Except String StubResponse}
  (hanswer : servedStore (.ofInputs bridge.codec m inputs) = .answer 0 answer)
include hanswer

/-- The response to a call is that of what the store answers to its inputs. -/
theorem Arrives.responseTo_answer :
    responseTo m (framesOf (schema.messageType m.input) inputs) = bridge.respond (.ofOutcome schema
      (schema.messageType m.output) (StubResponse.outcome bridge.codec m answer)) := by
  rw [harrives.responseTo_eq, Verdict.outlet, hanswer]
  rfl

theorem answers_of_error {s : Status}
    (houtcome : StubResponse.outcome bridge.codec m answer = .error s) :
    Answers m inputs [] s.code := by
  apply answers_of_status harrives.method
  rw [harrives.responseTo_answer hanswer, houtcome]
  exact bridge.respond_failed s

theorem answers_of_ok {α : Type} (as : List α) (sent received : α → Message)
    (houtcome : StubResponse.outcome bridge.codec m answer = .ok (as.map sent))
    (hsize : ∀ a ∈ as, ((sent a).write schema (schema.messageType m.output)).length < 0x100000000)
    (hread : ∀ a ∈ as, Message.read? schema (schema.messageType m.output)
      ((sent a).write schema (schema.messageType m.output)) = some (received a)) :
    Answers m inputs (as.map fun a => valuesOf (schema.messageType m.output) (received a)) .ok := by
  have hresponse := harrives.responseTo_answer hanswer
  rw [houtcome] at hresponse
  -- A response goes out with its first message; without one it is nothing but the status.
  cases as with
  | nil => exact answers_of_status harrives.method (hresponse.trans (bridge.respond_failed .ok))
  | cons a as =>
      intro chunks hchunks
      obtain ⟨served, hcall, hserved⟩ := answer_chunkedRequest harrives.method chunks
      have hparts : responseTo m (framesOf (schema.messageType m.input) inputs) =
          (.ofHeaders initialHeaders false,
            (a :: as).map (fun a => .data (Frame.encode
              ((sent a).write schema (schema.messageType m.output)))) ++
              [.trailers Status.ok.headers]) := by
        rw [hresponse, List.map_cons, Outlet.ofOutcome, Bridge.respond_delivered]
        simp [Function.comp_def]
      rw [hchunks, hparts] at hserved
      obtain ⟨r, hr, hmessages, hcode⟩ := readResponse_delivered (schema.messageType m.output)
        (fun a => (sent a).write schema _) received hsize hread hserved
      refine ⟨served, r, hcall, hr, ?_, hcode⟩
      rw [hmessages, List.map_map, Function.comp_def]

end Answers

end GrpcContract.Sample
