import GrpcContract.Contract.Verifier
import GrpcContract.Proofs.Delivery
import GrpcContract.Proofs.Inbound
import GrpcContract.Proofs.PlannedCalls
import GrpcContract.Proofs.Replies
import GrpcContract.Proofs.ServedResponse
import GrpcContract.Sample.Cases
import Mathlib

/-!
# Exchanges

Between a verifier and a bridge the wire is transparent: an exchange comes to what the matcher's
answer comes to without any wire.
-/

namespace GrpcContract

/-- Whether a message passes over the wire: it is no longer than what is accepted, and its bytes
are read as a message with the same tree. -/
structure Message.Survives (s : Schema) (t : MessageType) (m : Message) : Prop where
  size : (m.write s t).length ≤ Reply.messageLimit
  read : ∃ m', Message.read? s t (m.write s t) = some m' ∧ m'.toTree s t = m.toTree s t

/-- The request for the inputs of a call: for the one message, or for the sequence. -/
def StubRequest.ofInputs (c : Codec) (m : Method) (inputs : List Message) : StubRequest :=
  match inputs, m.shape.isClientStreaming with
  | [input], false => .ofMessage c m input
  | _, _ => .ofStream c m inputs

/-- The outcome of a call that is made without a wire. -/
def Bridge.direct (b : Bridge) (f : Matcher) (m : Method) (inputs : List Message) :
    Except Status (List Message) :=
  StubResponse.outcome b.codec m (f (.ofInputs b.codec m inputs))

namespace ContractResponse

/-- The response that tells a text. -/
def withBody (text : String) : ContractResponse where
  headers := ⟨[("content-type", headerValue "application/grpc"),
    ("grpc-encoding", headerValue "identity"), ("grpc-accept-encoding", headerValue "identity")]⟩
  body? := some text

/-- The response that tells the number of a status, and perhaps its message. -/
def withStatus (code : Nat) (message? : Option String) : ContractResponse where
  headers := ⟨("content-type", headerValue "application/grpc") ::
    ("grpc-status", headerValue (toString code)) ::
    message?.toList.map fun message => ("grpc-message", headerValue (Text.Percent.encode message))⟩

/-- What tells the outcome of a call: the text of the one output message, the texts of all of them
in an array, or a status, whose message counts for nothing if it is empty. -/
inductive Tells (c : Codec) (m : Method) : Except Status (List Message) → ContractResponse → Prop
  | one {x : Message} (hone : m.serverStreaming = false) :
      Tells c m (.ok [x]) (withBody (c.encode (c.schema.messageType m.output) x).render)
  | array {xs : List Message} (hmany : m.serverStreaming = true) :
      Tells c m (.ok xs) (withBody ("[" ++ ",".intercalate
        (xs.map fun x => (c.encode (c.schema.messageType m.output) x).render) ++ "]"))
  | status {code : Code} {message? : Option String} (hmessage : message?.getD "" = "") :
      Tells c m (.error ⟨code, message?⟩) (withStatus code.toNat none)
  | message {code : Code} {text : String} (htext : text ≠ "") :
      Tells c m (.error ⟨code, some text⟩) (withStatus code.toNat (some text))

end ContractResponse

/-! ### Messages on the wire -/

namespace Message

variable {s : Schema} {t : MessageType} {ms : List Message}

/-- A sequence of messages is read back with the same trees, on either side of the wire. -/
theorem exists_read_of_survives (hsurvives : ∀ m ∈ ms, m.Survives s t) :
    ∃ ms' : List Message,
      (ms.map fun m => m.write s t).mapM (Message.read? s t) = some ms' ∧
        (ms.map fun m => m.write s t).map (Reply.readMessage s t) = ms'.map .ok ∧
        ms'.map (Message.toTree s t) = ms.map (Message.toTree s t) := by
  induction ms with
  | nil => exact ⟨[], rfl, rfl, rfl⟩
  | cons m ms ih =>
      obtain ⟨ms', hserver, hclient, htrees⟩ := ih fun m' hm' => hsurvives m' (by simp [hm'])
      obtain ⟨m', hread, htree⟩ := (hsurvives m (by simp)).read
      refine ⟨m' :: ms', ?_, ?_, ?_⟩
      · simp [hread, hserver]
      · simp only [List.map_cons, Reply.readMessage, hread, ← hclient]
      · simp only [List.map_cons, htree, htrees]

theorem allows_of_survives (hsurvives : ∀ m ∈ ms, m.Survives s t) :
    ∀ p ∈ ms.map fun m => m.write s t, Deframer.allows (some Reply.messageLimit) p.length := by
  intro p hp
  obtain ⟨m, hm, rfl⟩ := List.mem_map.mp hp
  have hsize := (hsurvives m hm).size
  refine ⟨Nat.lt_of_le_of_lt hsize (by decide), fun limit hlimit => ?_⟩
  rwa [← Option.some.inj hlimit]

end Message

/-! ### The request -/

theorem Adapter.judge_encoded {codec : Codec} {m : Method} {inputs : List Message}
    (hone : m.shape.isClientStreaming = false → ∃ x, inputs = [x])
    (hinputs : ∀ x ∈ inputs, x.Survives codec.schema (codec.schema.messageType m.input)) :
    Adapter.judge { codec, method := m }
        { limit? := some Reply.messageLimit
          buffer := inputs.flatMap fun x =>
            Frame.encode (x.write codec.schema (codec.schema.messageType m.input)) } none =
      .asked (.ofInputs codec m inputs) := by
  have hdrain := Deframer.drain_encode (Message.allows_of_survives hinputs)
  rw [List.flatMap_map] at hdrain
  obtain ⟨read, hread, -, htrees⟩ := Message.exists_read_of_survives hinputs
  have hread? : Adapter.read? { codec, method := m } =
      Message.read? codec.schema (codec.schema.messageType m.input) := rfl
  cases hshape : m.shape.isClientStreaming with
  | true =>
      have htrees' : read.map (codec.encode (codec.schema.messageType m.input)) =
          inputs.map (codec.encode (codec.schema.messageType m.input)) := htrees
      have hrequest : StubRequest.ofInputs codec m inputs = .ofStream codec m read := by
        simp only [StubRequest.ofInputs, hshape, StubRequest.ofStream, Codec.encodeMany, htrees']
      simp only [judge, shape, hshape, ↓reduceIte, hdrain, hread?, hread, judgeEnd,
        Deframer.finish, List.nil_append, hrequest]
  | false =>
      obtain ⟨x, rfl⟩ := hone hshape
      obtain ⟨x', hx', htree⟩ := (hinputs x (by simp)).read
      simp only [judge, shape, hshape, Bool.false_eq_true, ↓reduceIte, hdrain, hread?, hx',
        List.map_cons, List.map_nil, StubRequest.ofInputs, StubRequest.ofMessage, Codec.encode,
        htree]

namespace Verifier

/-- The body of a request brings the frames of the inputs, and ends well. -/
theorem body_request (v : Verifier) (c : PlannedCall) :
    ∃ events : List BodyEvent, (v.request c).body = events.map .event ∧
      BodyEvent.bytes events = (c.inputs.flatMap fun x =>
        Frame.encode (x.write v.codec.schema (v.inputType c.method))) ∧
      BodyEvent.failure? events = none := by
  cases hinputs : c.inputs with
  | nil => exact ⟨[], by simp [request, hinputs], rfl, rfl⟩
  | cons x xs =>
      refine ⟨[.data ((x :: xs).flatMap fun x =>
        Frame.encode (x.write v.codec.schema (v.inputType c.method)))], ?_, ?_, rfl⟩
      · simp [request, hinputs]
      · simp [BodyEvent.bytes]

theorem dispatch_request {v : Verifier} {b : Bridge} {c : PlannedCall}
    (hresolve : b.registry.resolve c.path = .ok c.method) :
    b.dispatch (v.request c) = .ok c.method := by
  have hannounces : StubRequest.callHeaders.announcesGrpc = true := by cbv
  have hencoding : (v.request c).headers.get? HeaderName.grpcEncoding = none := rfl
  have hpath : (v.request c).path = c.path := rfl
  rw [Bridge.dispatch_of_post b rfl hannounces, hencoding, hpath, hresolve]
  rfl

/-- The bridge asks the matcher about the inputs of the call, and its response is that of the
matcher's answer. -/
theorem serve_request {v : Verifier} {b : Bridge} {f : Matcher} {c : PlannedCall}
    (hresolve : b.registry.resolve c.path = .ok c.method)
    (hschema : v.codec.schema = b.schema)
    (hlimit : b.config.receiveMaxBytes = some Reply.messageLimit)
    (htimeout : b.config.serverTimeout = none)
    (hone : c.method.shape.isClientStreaming = false → ∃ x, c.inputs = [x])
    (hinputs : ∀ x ∈ c.inputs, x.Survives b.schema (b.schema.messageType c.method.input)) :
    ((b.serve f.timed (v.request c)).head, (b.serve f.timed (v.request c)).body) =
      b.respond (.ofOutcome b.schema (b.schema.messageType c.method.output)
        (b.direct f c.method c.inputs)) := by
  obtain ⟨events, hbody, hbytes, hclean⟩ := v.body_request c
  have hunlimited : b.limit? (v.request c).headers = none := by
    rw [Bridge.limit?, htimeout]
    rfl
  have hverdict : (b.session c.method).verdict events =
      .asked (.ofInputs b.codec c.method c.inputs) := by
    rw [Session.verdict, hbytes, hclean, ← Adapter.judge_encoded hone hinputs, inputType, hschema]
    simp only [Bridge.session, Session.start, hlimit, Deframer.push, List.nil_append, Bridge.codec]
  have houtlet : (TimedSession.run f.timed { session := b.session c.method, limit? := none }
      (v.request c).body).session.outlet =
        .ofOutcome b.schema (b.schema.messageType c.method.output)
          (b.direct f c.method c.inputs) := by
    have hrun := (TimedSession.settled_run f.timed events
      (t := { session := b.session c.method, limit? := none })
      ⟨⟨rfl, rfl, rfl⟩, rfl⟩ rfl rfl).outlet
    rw [hbody, hrun, hverdict]
    rfl
  simp only [Bridge.serve, dispatch_request hresolve, hunlimited, houtlet]

end Verifier

/-! ### The response -/

theorem Tree.render_list (ts : List Tree) :
    (Tree.list ts).render = "[" ++ ",".intercalate (ts.map Tree.render) ++ "]" := by
  rw [← String.toList_inj]
  simp [Tree.render, Tree.print, Tree.printItems_eq_map, Json.commaSeparated, List.intercalate,
    String.toList_intercalate, Function.comp_def]

namespace Verifier

theorem package_withoutEmptyMessage (v : Verifier) (m : Method) (s : Status) :
    v.package m (.error s.withoutEmptyMessage) = v.package m (.error s) := by
  simp only [package, Status.withoutEmptyMessage_idem]

theorem render_congr (v : Verifier) (m : Method) {ms ms' : List Message}
    (htrees : ms'.map (v.codec.encode (v.outputType m)) =
      ms.map (v.codec.encode (v.outputType m))) : v.render m ms' = v.render m ms := by
  match ms, ms', htrees with
  | [], [], _ => rfl
  | [x], [x'], htrees =>
      have htree : v.codec.encode (v.outputType m) x' = v.codec.encode (v.outputType m) x := by
        simpa using htrees
      cases hshape : m.shape.isServerStreaming <;>
        simp only [render, hshape, Codec.encodeMany, List.map_cons, List.map_nil, htree]
  | x :: y :: ms, x' :: y' :: ms', htrees => simp only [render, Codec.encodeMany, htrees]
  | [_], _ :: _ :: _, htrees => simp at htrees
  | _ :: _ :: _, [_], htrees => simp at htrees

variable {v : Verifier} {m : Method} {served : Served}

theorem package_of_stream (v : Verifier) (m : Method) {r : Reply} {ms : List Message}
    (hstream : r.stream v.codec.schema (v.outputType m) = ms.map .ok)
    (hlength : m.shape.isServerStreaming = false → ms.length = 1) :
    v.package m (r.messages v.codec.schema (v.outputType m) m.shape.isServerStreaming) =
      v.package m (.ok ms) := by
  unfold Reply.messages
  rw [hstream]
  cases hshape : m.shape.isServerStreaming with
  | true => simp only [↓reduceIte, Gather.all_ok]
  | false =>
      obtain ⟨x, rfl⟩ := List.length_eq_one_iff.mp (hlength hshape)
      rfl

/-- What a client reads of a response is the outcome that the response was made of. -/
theorem package_messages {b : Bridge} {outcome : Except Status (List Message)}
    (hserved : (served.head, served.body) =
      b.respond (.ofOutcome v.codec.schema (v.outputType m) outcome))
    (hfailure : ∀ s, outcome = .error s → s.isOk = false)
    (hlength : ∀ ms, outcome = .ok ms → m.shape.isServerStreaming = false → ms.length = 1)
    (houtputs : ∀ ms, outcome = .ok ms →
      ∀ x ∈ ms, x.Survives v.codec.schema (v.outputType m)) :
    v.package m ((Reply.ofServed served).messages v.codec.schema (v.outputType m)
        m.shape.isServerStreaming) = v.package m outcome := by
  have hreply {head : ResponseHead} {body : List BodyPart}
      (hrespond : b.respond (.ofOutcome v.codec.schema (v.outputType m) outcome) = (head, body)) :
      Reply.ofServed served = ⟨head.status, head.headers, body.map Reply.partOf⟩ := by
    obtain ⟨hhead, hbody⟩ := Prod.mk.inj (hserved.trans hrespond)
    rw [Reply.ofServed, hhead, hbody]
  have hplain {s : Status} (hrespond : b.respond
      (.ofOutcome v.codec.schema (v.outputType m) outcome) = (.ofStatus s, [])) :
      (Reply.ofServed served).stream v.codec.schema (v.outputType m) =
        if s.isOk then [] else [.error s.withoutEmptyMessage] := by
    rw [hreply hrespond]
    exact Reply.stream_ofStatus _ _ s
  cases outcome with
  | error s =>
      have hstream := hplain (b.respond_failed s)
      rw [hfailure s rfl] at hstream
      rw [← package_withoutEmptyMessage, Reply.messages, hstream]
      cases m.shape.isServerStreaming <;> rfl
  | ok ms =>
      cases ms with
      | nil => exact package_of_stream v m (hplain (b.respond_failed .ok)) (hlength [] rfl)
      | cons x ms =>
          obtain ⟨read, -, hread, htrees⟩ := Message.exists_read_of_survives (houtputs _ rfl)
          have hstream := Reply.stream_delivered v.codec.schema (v.outputType m)
            (Message.allows_of_survives (houtputs _ rfl))
          have hlength' : read.length = (x :: ms).length := by
            simpa using congrArg List.length htrees
          have hpackage : v.package m (.ok read) = v.package m (.ok (x :: ms)) := by
            simp only [package, render_congr v m htrees]
          rw [hread] at hstream
          rw [← hpackage]
          refine package_of_stream v m ?_ fun hshape => hlength'.trans (hlength _ rfl hshape)
          rw [hreply (b.respond_delivered _ _), ← hstream]
          simp [Reply.partOf, Function.comp_def, ResponseHead.ofHeaders]

theorem package_error (v : Verifier) (m : Method) (s : Status) :
    v.package m (.error s) = .withStatus s.code.toNat s.withoutEmptyMessage.message? := by
  obtain ⟨code, message?⟩ := s
  cases hmessage : message?.filter (!·.isEmpty) <;>
    simp only [package, Status.withoutEmptyMessage, hmessage] <;> rfl

theorem render_of_one (v : Verifier) {m : Method} (hone : m.serverStreaming = false)
    (x : Message) :
    v.render m [x] = (v.codec.encode (v.codec.schema.messageType m.output) x).render := by
  simp only [render, m.isServerStreaming_shape, hone, outputType]

theorem render_of_many (v : Verifier) {m : Method} (hmany : m.serverStreaming = true)
    (xs : List Message) :
    v.render m xs = "[" ++ ",".intercalate
      (xs.map fun x => (v.codec.encode (v.codec.schema.messageType m.output) x).render) ++ "]" := by
  unfold render
  split
  · rename_i hone
    rw [m.isServerStreaming_shape, hmany] at hone
    cases hone
  · rw [Codec.encodeMany, Tree.render_list, List.map_map]
    rfl

theorem package_tells (v : Verifier) (m : Method) {outcome : Except Status (List Message)}
    (hlength : ∀ xs, outcome = .ok xs → m.serverStreaming = false → xs.length = 1) :
    ContractResponse.Tells v.codec m outcome (v.package m outcome) := by
  cases outcome with
  | error s =>
      obtain ⟨code, message?⟩ := s
      rw [package_error]
      by_cases hmessage : message?.getD "" = ""
      · have hnone : message?.filter (!·.isEmpty) = none := by
          cases message? <;> simp_all
        simpa only [Status.withoutEmptyMessage, hnone] using .status hmessage
      · obtain ⟨text, rfl⟩ : ∃ text, message? = some text :=
          Option.ne_none_iff_exists'.mp fun hnone => hmessage (by rw [hnone]; rfl)
        have hsome : (some text).filter (!·.isEmpty) = some text := by simpa using hmessage
        simpa only [Status.withoutEmptyMessage, hsome] using .message hmessage
  | ok xs =>
      have hbody : v.package m (.ok xs) = .withBody (v.render m xs) := rfl
      rw [hbody]
      cases hshape : m.serverStreaming with
      | true => exact v.render_of_many hshape xs ▸ .array hshape
      | false =>
          obtain ⟨x, rfl⟩ := List.length_eq_one_iff.mp (hlength xs rfl hshape)
          exact v.render_of_one hshape x ▸ .one hshape

/-- The one input of a client that sends no stream. -/
theorem Reads.exists_eq {v : Verifier} {m : Method} {body : String} {inputs : List Message}
    (hread : v.Reads m body inputs) (hone : m.clientStreaming = false) : ∃ x, inputs = [x] := by
  rw [Reads, hone] at hread
  obtain ⟨x, -, rfl⟩ := hread
  exact ⟨x, rfl⟩

/-- Between a verifier and a bridge over the same methods the wire is transparent: whatever the
matcher and the settings, an exchange comes to the response that packs what the matcher's answer
to the inputs comes to, with no wire between. It tells the output messages or the status of that
answer, and an error of the matcher as an unknown failure. -/
theorem exchange_endpoint {v : Verifier} {b : Bridge} {ms : List Method} {f : Matcher}
    {r : ContractRequest} {key body : String} {m : Method} {inputs : List Message}
    (hclient : v.registry = .ofMethods ms) (hserver : b.registry = .ofMethods ms)
    (hschema : v.codec.schema = b.schema)
    (hlimit : b.config.receiveMaxBytes = ({} : BridgeConfig).receiveMaxBytes)
    (htimeout : b.config.serverTimeout = none) (hform : r.WellFormed ("/" ++ key) body)
    (hkey : v.registry.get? key = some m) (hnamed : m.Named) (hread : v.Reads m body inputs)
    (hinputs : ∀ x ∈ inputs, x.Survives b.schema (b.schema.messageType m.input))
    (houtputs : ∀ xs, b.direct f m inputs = .ok xs →
      ∀ x ∈ xs, x.Survives b.schema (b.schema.messageType m.output)) :
    (v.exchange (b.endpoint f.timed) r).outcome = .ok (v.package m (b.direct f m inputs)) ∧
      ContractResponse.Tells v.codec m (b.direct f m inputs) (v.package m (b.direct f m inputs)) ∧
      ∀ text, f (.ofInputs b.codec m inputs) = .error text →
        v.package m (b.direct f m inputs) =
          .withStatus 2 (some ("stub matcher failed: " ++ text)) := by
  -- A name holds nothing that is barred from a path or ends one, so the path goes over unchanged.
  have hheld : (Registry.ofMethods ms).get? key = some m := hclient ▸ hkey
  have hplain : ∀ c ∈ ("/" ++ key).toList, Target.Plain c := by
    rw [(Registry.keyed_ofMethods ms).key_of_get? hheld]
    exact hnamed.plain
  have hplan : v.plan r = .ok { method := m, path := "/" ++ key, inputs } :=
    plan_eq_ok_iff.mpr ⟨key, body, hform, hkey, Target.isValid_of_plain hplain,
      (Target.targetPath_of_plain hplain).symm, hread⟩
  have hresolve : b.registry.resolve ("/" ++ key) = .ok m := by
    rw [hserver]
    exact Registry.resolve_slash_eq_ok_iff.mpr hheld
  have hserved := serve_request (v := v) (f := f)
    (c := { method := m, path := "/" ++ key, inputs }) hresolve hschema hlimit htimeout
    (fun hone => hread.exists_eq (m.isClientStreaming_shape ▸ hone)) hinputs
  have hlength (xs : List Message) (hxs : b.direct f m inputs = .ok xs)
      (hone : m.shape.isServerStreaming = false) : xs.length = 1 :=
    StubResponse.length_of_outcome_ok hxs hone
  rw [← hschema] at hserved houtputs
  have hpackage := package_messages hserved
    (fun s hs => StubResponse.isOk_of_outcome_error hs) hlength houtputs
  refine ⟨?_, package_tells v m fun xs hxs hone => hlength xs hxs ?_, fun text herror => ?_⟩
  · rw [exchange, hplan]
    exact congrArg Except.ok hpackage
  · rw [m.isServerStreaming_shape, hone]
  · rw [Bridge.direct, herror, StubResponse.outcome, package_error]
    have hsome : (some ("stub matcher failed: " ++ text)).filter (!·.isEmpty) =
        some ("stub matcher failed: " ++ text) := by
      simp
    simp only [Status.withoutEmptyMessage, Status.because, hsome]
    rfl

end Verifier

/-! ### Sample exchanges -/

namespace StubResponse

variable {c : Codec} {t : MessageType} {text : String}

theorem outputs_of_decode {x : Message} (hread : c.decode t text = .ok x) :
    (ok text).outputs c t false = .ok [x] := by
  have hfailure : (ok text).failure? = none := rfl
  have htext : (ok text).body?.getD "" = text := rfl
  simp only [outputs, hfailure, htext, Bool.false_eq_true, if_false, hread]

theorem outputs_of_decodeMany {xs : List Message} (hread : c.decodeMany t text = .ok xs) :
    (ok text).outputs c t true = .ok xs := by
  have hfailure : (ok text).failure? = none := rfl
  have htext : (ok text).body?.getD "" = text := rfl
  simp only [outputs, hfailure, htext, if_true, hread]
  rfl

end StubResponse

namespace Sample

def oneText : String := "\x7b\"value\":1\x7d"

def pairText : String := "[\x7b\"value\":1\x7d,\x7b\"value\":2\x7d]"

theorem decode_oneText (c : Codec) (name : String) :
    c.decode (oneValue name) oneText = .ok (valueMessage 1) := by
  have hparse : Json.parse? oneText = some (.object [("value", .number (.int 1))]) := by cbv
  rw [Codec.decode, hparse]
  rfl

theorem decodeMany_pairText (c : Codec) (name : String) :
    c.decodeMany (oneValue name) pairText = .ok [valueMessage 1, valueMessage 2] := by
  have htext : ¬ Text.trim pairText.toList = [] := by decide
  have hparse : Json.parseSorted? pairText = some (.array
      [.object [("value", .number (.int 1))], .object [("value", .number (.int 2))]]) := by
    cbv
  rw [Codec.decodeMany, if_neg htext, hparse]
  rfl

theorem decodeMany_brackets (c : Codec) (t : MessageType) : c.decodeMany t "[]" = .ok [] := by
  have htext : ¬ Text.trim "[]".toList = [] := by decide
  have hparse : Json.parseSorted? "[]" = some (.array []) := by cbv
  rw [Codec.decodeMany, if_neg htext, hparse]
  rfl

theorem named_methods : ∀ m ∈ service.methods, m.Named := by
  have hmethods : service.methods =
      [unaryMethod, clientStreamingMethod, serverStreamingMethod, bidiStreamingMethod] := rfl
  have hservice : serviceName.toList.all isNameChar = true := by cbv
  intro m hm
  simp only [hmethods, List.mem_cons, List.not_mem_nil, or_false] at hm
  rcases hm with rfl | rfl | rfl | rfl
  · exact ⟨hservice, by cbv⟩
  · exact ⟨hservice, by cbv⟩
  · exact ⟨hservice, by cbv⟩
  · exact ⟨hservice, by cbv⟩

theorem survives_pair (name : String) :
    ∀ x ∈ [valueMessage 1, valueMessage 2], x.Survives schema (oneValue name) := by
  intro x hx
  simp only [List.mem_cons, List.not_mem_nil, or_false] at hx
  rcases hx with rfl | rfl
  · exact ⟨by cbv, valueMessage 1, by cbv, rfl⟩
  · exact ⟨by cbv, valueMessage 2, by cbv, rfl⟩

theorem survives_one (name : String) :
    ∀ x ∈ [valueMessage 1], x.Survives schema (oneValue name) := by
  simpa using survives_pair name (valueMessage 1) (by simp)

/-- What an exchange between the sample verifier and a bridge to a matcher comes to. -/
def outcomeOf (f : Matcher) (m : Method) (body : String) : Except Failure ContractResponse :=
  (ContractCase.verifier.exchange (bridge.endpoint f.timed) (.grpc m.path body)).outcome

/-- Two values that are echoed, none, and one alone; a failure that has no message, and a matcher
that fails. -/
theorem exchange_endpoint_pair :
    outcomeOf .echo bidiStreamingMethod pairText = .ok
        { status := 200
          headers := ⟨[("content-type", headerValue "application/grpc"),
            ("grpc-encoding", headerValue "identity"),
            ("grpc-accept-encoding", headerValue "identity")]⟩
          body? := some "[\x7b\"value\":1\x7d,\x7b\"value\":2\x7d]" } ∧
      outcomeOf .echo bidiStreamingMethod "[]" = .ok (.withBody "[]") ∧
      outcomeOf .echo unaryMethod oneText = .ok (.withBody "\x7b\"value\":1\x7d") ∧
      outcomeOf (.fixed (.failure ⟨.notFound, none⟩)) unaryMethod oneText =
        .ok (.withStatus 5 none) ∧
      outcomeOf (.failing "boom") unaryMethod oneText = .ok
        { status := 200
          headers := ⟨[("content-type", headerValue "application/grpc"),
            ("grpc-status", headerValue "2"),
            ("grpc-message", headerValue "stub matcher failed: boom")]⟩
          body? := none } := by
  have hexchange {m : Method} {f : Matcher} {body : String} {inputs : List Message}
      {outcome : Except Status (List Message)} {answer : ContractResponse}
      (hkey : ContractCase.verifier.registry.get? m.key = some m) (hnamed : m.Named)
      (hread : ContractCase.verifier.Reads m body inputs)
      (hinputs : ∀ x ∈ inputs, x.Survives schema (schema.messageType m.input))
      (hdirect : bridge.direct f m inputs = outcome)
      (houtputs : ∀ xs, outcome = .ok xs →
        ∀ x ∈ xs, x.Survives schema (schema.messageType m.output))
      (hanswer : ContractCase.verifier.package m outcome = answer) :
      outcomeOf f m body = .ok answer := by
    subst hdirect hanswer
    have hclient : ContractCase.verifier.registry = .ofMethods service.methods := rfl
    exact (Verifier.exchange_endpoint (f := f) hclient rfl rfl rfl rfl
      (ContractRequest.wellFormed_grpc m.key body) hkey hnamed hread hinputs houtputs).1
  have hunary : ContractCase.verifier.registry.get? unaryMethod.key = some unaryMethod := by cbv
  have hbidi : ContractCase.verifier.registry.get? bidiStreamingMethod.key =
      some bidiStreamingMethod := by
    cbv
  have hone : ContractCase.verifier.Reads unaryMethod oneText [valueMessage 1] :=
    ⟨valueMessage 1, decode_oneText _ _, rfl⟩
  have hpair : ContractCase.verifier.Reads bidiStreamingMethod pairText
      [valueMessage 1, valueMessage 2] :=
    decodeMany_pairText _ _
  have hnone : ContractCase.verifier.Reads bidiStreamingMethod "[]" [] := decodeMany_brackets _ _
  have hechoed {m : Method} {inputs : List Message} {text : String}
      (hbody : (StubRequest.ofInputs bridge.codec m inputs).body = text) :
      bridge.direct .echo m inputs = (StubResponse.ok text).outputs bridge.codec
        (schema.messageType m.output) m.shape.isServerStreaming := by
    rw [Bridge.direct, Matcher.echo, hbody]
    rfl
  have hunaryNamed : unaryMethod.Named := named_methods unaryMethod (.head _)
  have hbidiNamed : bidiStreamingMethod.Named :=
    named_methods bidiStreamingMethod (.tail _ (.tail _ (.tail _ (.head _))))
  refine ⟨?pair, ?none, ?one, ?failure, ?failing⟩
  case pair =>
    have hdirect : bridge.direct .echo bidiStreamingMethod [valueMessage 1, valueMessage 2] =
        .ok [valueMessage 1, valueMessage 2] :=
      (hechoed (by cbv)).trans (StubResponse.outputs_of_decodeMany (decodeMany_pairText _ _))
    refine hexchange hbidi hbidiNamed hpair (survives_pair _) hdirect (fun xs hxs => ?_) (by cbv)
    exact Except.ok.inj hxs ▸ survives_pair _
  case none =>
    have hdirect : bridge.direct .echo bidiStreamingMethod [] = .ok [] :=
      (hechoed (by cbv)).trans (StubResponse.outputs_of_decodeMany (decodeMany_brackets _ _))
    refine hexchange hbidi hbidiNamed hnone (by simp) hdirect (fun xs hxs => ?_) (by cbv)
    exact Except.ok.inj hxs ▸ List.forall_mem_nil _
  case one =>
    have hdirect : bridge.direct .echo unaryMethod [valueMessage 1] = .ok [valueMessage 1] :=
      (hechoed (by cbv)).trans (StubResponse.outputs_of_decode (decode_oneText _ _))
    refine hexchange hunary hunaryNamed hone (survives_one _) hdirect (fun xs hxs => ?_) (by cbv)
    exact Except.ok.inj hxs ▸ survives_one _
  case failure =>
    have hdirect : bridge.direct (.fixed (.failure ⟨.notFound, none⟩)) unaryMethod
        [valueMessage 1] = .error ⟨.notFound, none⟩ := by
      cbv
    exact hexchange hunary hunaryNamed hone (survives_one _) hdirect (by simp) (by cbv)
  case failing =>
    have hdirect : bridge.direct (.failing "boom") unaryMethod [valueMessage 1] =
        .error ⟨.unknown, some "stub matcher failed: boom"⟩ := by
      cbv
    exact hexchange hunary hunaryNamed hone (survives_one _) hdirect (by simp) (by cbv)

end Sample

end GrpcContract
