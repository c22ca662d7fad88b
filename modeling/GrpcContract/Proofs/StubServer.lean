import GrpcContract.Proofs.ServedCalls
import GrpcContract.Proofs.ValueMessages
import Mathlib

/-!
# The stub server

The calls of the sample server are answered as they were recorded: a value is given back, a stream
of values is gathered or given back one by one, a number is counted up to, and two values are
answered with failures. What bounds this are the lengths of messages and of arrays.
-/

namespace GrpcContract.Sample

/-! ### Messages of values on their way -/

theorem survives_valueMessage (name : String) (v : Int64) :
    (valueMessage v.toInt).Survives schema (oneValue name) where
  size := Nat.le_trans (length_write_valueMessage schema name v) (by decide)
  read := ⟨valueReceived v, read?_valueMessage schema name v, by
    rw [toTree_valueReceived, toTree_valueMessage]⟩

theorem survives_valuesMessage (name : String) {vs : List Int64}
    (hsize : ((valuesMessage vs).write schema (manyValues name)).length ≤ 4194304) :
    (valuesMessage vs).Survives schema (manyValues name) where
  size := hsize
  read := by
    have hpacked := length_packed_le schema name vs
    refine ⟨valuesReceived vs, read?_valuesMessage schema name (by omega), ?_⟩
    rw [toTree_valuesReceived, toTree_valuesMessage]

theorem arrives_valueMessages {m : Method} (hmethod : m ∈ service.methods)
    (hstream : m.shape.isClientStreaming = true) {name : String}
    (htype : schema.messageType m.input = oneValue name) (vs : List Int64) :
    Arrives m (vs.map fun v => valueMessage v.toInt) where
  method := hmethod
  one hshape := by cases hstream.symm.trans hshape
  survives := by
    rw [htype]
    exact List.forall_mem_map.mpr fun v _ => survives_valueMessage name v

theorem arrives_unary (v : Int64) : Arrives unaryMethod [valueMessage v.toInt] where
  method := .head _
  one _ := ⟨_, rfl⟩
  survives := List.forall_mem_singleton.mpr (survives_valueMessage "example.UnaryRequest" v)

theorem arrives_serverStreaming {vs : List Int64}
    (hsize : ((valuesMessage vs).write schema
      (schema.messageType serverStreamingMethod.input)).length ≤ 4194304) :
    Arrives serverStreamingMethod [valuesMessage vs] where
  method := .tail _ (.tail _ (.head _))
  one _ := ⟨_, rfl⟩
  survives := List.forall_mem_singleton.mpr
    (survives_valuesMessage "example.ServerStreamingRequest" hsize)

theorem bodyJson?_unary (v : Int64) :
    (StubRequest.ofInputs bridge.codec unaryMethod [valueMessage v.toInt]).bodyJson? =
      some (Store.valueOf (numberJson v)) := by
  have htree : bridge.codec.encode (oneValue "example.UnaryRequest") (valueMessage v.toInt) =
      valueTree v := toTree_valueMessage ..
  rw [← (parse?_valueTree v).2, ← htree]
  rfl

theorem bodyJson?_serverStreaming (vs : List Int64) :
    (StubRequest.ofInputs bridge.codec serverStreamingMethod [valuesMessage vs]).bodyJson? =
      some (Store.valueOf (.array (vs.map numberJson))) := by
  have htree : bridge.codec.encode (manyValues "example.ServerStreamingRequest")
      (valuesMessage vs) = valuesTree vs := toTree_valuesMessage ..
  rw [← (parse?_valuesTree vs).2, ← htree]
  rfl

theorem ofInputs_of_stream {m : Method} (hstream : m.shape.isClientStreaming = true) (c : Codec)
    (inputs : List Message) : StubRequest.ofInputs c m inputs = .ofStream c m inputs := by
  simp only [StubRequest.ofInputs, hstream]

theorem bodyJson?_stream {m : Method} (hstream : m.shape.isClientStreaming = true) {name : String}
    (htype : schema.messageType m.input = oneValue name) (vs : List Int64) :
    (StubRequest.ofInputs bridge.codec m (vs.map fun v => valueMessage v.toInt)).bodyJson? =
      some (.array (vs.map fun v => Store.valueOf (numberJson v))) := by
  have htree : bridge.codec.encodeMany (schema.messageType m.input)
      (vs.map fun v => valueMessage v.toInt) = .list (vs.map valueTree) := by
    rw [htype, Codec.encodeMany, List.map_map]
    exact congrArg Tree.list (List.map_congr_left fun v _ => toTree_valueMessage ..)
  rw [← (parse?_list vs).2, ← htree, ofInputs_of_stream hstream]
  rfl

/-- An answer of values is read as messages with these values. -/
theorem answers_of_values {m : Method} {inputs : List Message} (harrives : Arrives m inputs)
    {answer : Except String StubResponse}
    (hanswer : servedStore (.ofInputs bridge.codec m inputs) = .answer 0 answer) {name : String}
    (htype : schema.messageType m.output = oneValue name) {vs : List Int64}
    (houtcome : StubResponse.outcome bridge.codec m answer =
      .ok (vs.map fun v => valueMessage v.toInt)) :
    Answers m inputs (vs.map fun v => [v.toInt]) .ok := by
  have hall := answers_of_ok harrives hanswer vs _ valueReceived houtcome
  simp only [htype, valuesOf_valueReceived] at hall
  exact hall
    (fun v _ => Nat.lt_of_le_of_lt (length_write_valueMessage schema name v) (by decide))
    (fun v _ => read?_valueMessage schema name v)

/-! ### The store -/

theorem path_ne {name name' : String} (hne : name ≠ name') : pathOf name ≠ pathOf name' := by
  simpa [pathOf] using hne

theorem servedStore_eq {r : StubRequest} {input : Json} (hbody : r.bodyJson? = some input)
    (hcount : r.path = serverStreamingPath → Store.count input ≤ Store.maxItems) :
    servedStore r = .answer 0 (store r) := by
  have hfits : Store.overflows r = false := by
    simpa [Store.overflows, hbody] using hcount
  rw [servedStore, hfits]
  rfl

theorem servedStore_crash {r : StubRequest} {input : Json} (hbody : r.bodyJson? = some input)
    (hpath : r.path = serverStreamingPath) (hcount : Store.maxItems < Store.count input) :
    servedStore r = .crash 0 := by
  have hoverflows : Store.overflows r = true := by
    simp [Store.overflows, hbody, hpath, hcount]
  rw [servedStore, hoverflows]
  rfl

section Store

variable {r : StubRequest} {input : Json} (hbody : r.bodyJson? = some input)
include hbody

theorem store_unary (hpath : r.path = unaryPath) : store r = .ok (Store.unary input) := by
  simp only [store, hbody, hpath, ↓reduceIte]

theorem store_clientStreaming (hpath : r.path = clientStreamingPath) :
    store r = .ok (Store.clientStreaming input) := by
  have hunary : clientStreamingPath ≠ unaryPath := path_ne (by decide)
  simp only [store, hbody, hpath, hunary, ↓reduceIte]

theorem store_serverStreaming (hpath : r.path = serverStreamingPath) :
    store r = .ok (Store.serverStreaming input) := by
  have hunary : serverStreamingPath ≠ unaryPath := path_ne (by decide)
  have hclient : serverStreamingPath ≠ clientStreamingPath := path_ne (by decide)
  simp only [store, hbody, hpath, hunary, hclient, ↓reduceIte]

theorem store_bidiStreaming (hpath : r.path = bidiStreamingPath) :
    store r = .ok (Store.respond input) := by
  have hunary : bidiStreamingPath ≠ unaryPath := path_ne (by decide)
  have hclient : bidiStreamingPath ≠ clientStreamingPath := path_ne (by decide)
  have hserver : bidiStreamingPath ≠ serverStreamingPath := path_ne (by decide)
  simp only [store, hbody, hpath, hunary, hclient, hserver, ↓reduceIte]

end Store

/-! ### Answers of the store -/

theorem int64?_number (v : Int64) : (numberJson v).int64? = some v.toInt := by
  have hlower := v.le_toInt
  have hupper := v.toInt_lt
  simp only [numberJson, Json.int64?]
  rw [if_pos (by simp; omega)]

theorem field_valueOf (j : Json) : (Store.valueOf j).field "value" = j := rfl

theorem path_ofInputs (c : Codec) (m : Method) (inputs : List Message) :
    (StubRequest.ofInputs c m inputs).path = m.path := by
  unfold StubRequest.ofInputs
  split <;> rfl

theorem outcome_respond_one {m : Method} (hone : m.shape.isServerStreaming = false) {j : Json}
    {x : Message}
    (hdecode : bridge.codec.decode (schema.messageType m.output) j.render = .ok x) :
    StubResponse.outcome bridge.codec m (.ok (Store.respond j)) = .ok [x] := by
  have hschema : bridge.codec.schema = schema := rfl
  simp only [StubResponse.outcome, Store.respond, StubResponse.outputs, StubResponse.failure?_ok,
    StubResponse.body_ok, hone, hschema, hdecode, Bool.false_eq_true, ↓reduceIte]

theorem outcome_respond_values {m : Method} (hmany : m.shape.isServerStreaming = true)
    {name : String} (htype : schema.messageType m.output = oneValue name) (vs : List Int64) :
    StubResponse.outcome bridge.codec m
        (.ok (Store.respond (.array (vs.map fun v => Store.valueOf (numberJson v))))) =
      .ok (vs.map fun v => valueMessage v.toInt) := by
  have hschema : bridge.codec.schema = schema := rfl
  simp only [StubResponse.outcome, Store.respond, StubResponse.outputs, StubResponse.failure?_ok,
    StubResponse.body_ok, hmany, hschema, htype, render_array, decodeMany_list, ↓reduceIte]
  rfl

/-! ### One value -/

theorem servedStore_unary (v : Int64) :
    servedStore (.ofInputs bridge.codec unaryMethod [valueMessage v.toInt]) =
      .answer 0 (.ok (Store.unary (Store.valueOf (numberJson v)))) := by
  have hpath : unaryPath ≠ serverStreamingPath := path_ne (by decide)
  rw [servedStore_eq (bodyJson?_unary v) fun h => absurd h hpath,
    store_unary (bodyJson?_unary v) rfl]

theorem store_unary_value (v : Int64) :
    Store.unary (Store.valueOf (numberJson v)) =
      if v = 404 then .failure (.because .notFound "no stub for 404")
      else if v = 503 then { status := 503 }
      else Store.respond (Store.valueOf (numberJson v)) := by
  have hvalue (w : Int64) : v.toInt = w.toInt ↔ v = w := Int64.toInt_inj
  have hnotFound : v.toInt = Store.notFoundValue ↔ v = 404 := hvalue 404
  have hunavailable : v.toInt = Store.unavailableValue ↔ v = 503 := hvalue 503
  simp only [Store.unary, field_valueOf, int64?_number, Option.some.injEq, hnotFound, hunavailable]

theorem answers_unary {v : Int64} (hnotFound : v ≠ 404) (hunavailable : v ≠ 503) :
    Answers unaryMethod [valueMessage v.toInt] [[v.toInt]] .ok := by
  have hanswer := servedStore_unary v
  rw [store_unary_value, if_neg hnotFound, if_neg hunavailable] at hanswer
  have hdecode : bridge.codec.decode (oneValue "example.UnaryResponse")
      (Store.valueOf (numberJson v)).render = .ok (valueMessage v.toInt) := by
    rw [render_valueOf, decode_valueTree]
  have houtcome : StubResponse.outcome bridge.codec unaryMethod
      (.ok (Store.respond (Store.valueOf (numberJson v)))) =
        .ok ([v].map fun v => valueMessage v.toInt) := outcome_respond_one rfl hdecode
  exact answers_of_values (arrives_unary v) hanswer rfl houtcome

theorem answers_notFound : Answers unaryMethod [valueMessage 404] [] .notFound := by
  have houtcome : StubResponse.outcome bridge.codec unaryMethod
      (.ok (.failure (.because .notFound "no stub for 404"))) =
        .error (.because .notFound "no stub for 404") := by
    cbv
  exact answers_of_error (arrives_unary 404) (servedStore_unary 404) houtcome

theorem answers_unavailable : Answers unaryMethod [valueMessage 503] [] .unavailable := by
  have houtcome : StubResponse.outcome bridge.codec unaryMethod (.ok { status := 503 }) =
      .error (.because .unavailable "stub answered with HTTP 503 Service Unavailable") := by
    cbv
  exact answers_of_error (arrives_unary 503) (servedStore_unary 503) houtcome

/-! ### A stream of values, gathered -/

theorem arrives_clientStreaming (vs : List Int64) :
    Arrives clientStreamingMethod (vs.map fun v => valueMessage v.toInt) :=
  arrives_valueMessages (.tail _ (.head _)) rfl
    (rfl : _ = oneValue "example.ClientStreamingRequest") vs

theorem servedStore_clientStreaming (vs : List Int64) :
    servedStore (.ofInputs bridge.codec clientStreamingMethod
        (vs.map fun v => valueMessage v.toInt)) =
      .answer 0 (.ok (Store.respond (Store.valueOf (.array (vs.map numberJson))))) := by
  have hpath : clientStreamingPath ≠ serverStreamingPath := path_ne (by decide)
  have hbody := bodyJson?_stream (m := clientStreamingMethod) rfl
    (rfl : _ = oneValue "example.ClientStreamingRequest") vs
  have hvalues : Store.clientStreaming (.array (vs.map fun v => Store.valueOf (numberJson v))) =
      Store.respond (Store.valueOf (.array (vs.map numberJson))) := by
    simp only [Store.clientStreaming, Json.items, List.map_map, Function.comp_def, field_valueOf]
  rw [servedStore_eq hbody fun h => absurd ((path_ofInputs ..).symm.trans h) hpath,
    store_clientStreaming hbody (path_ofInputs ..), hvalues]

theorem outcome_clientStreaming (vs : List Int64) :
    StubResponse.outcome bridge.codec clientStreamingMethod
        (.ok (Store.respond (Store.valueOf (.array (vs.map numberJson))))) =
      .ok [valuesMessage vs] := by
  have hdecode : bridge.codec.decode (manyValues "example.ClientStreamingResponse")
      (Store.valueOf (.array (vs.map numberJson))).render = .ok (valuesMessage vs) := by
    rw [render_valuesOf, decode_valuesTree]
  exact outcome_respond_one rfl hdecode

theorem answers_clientStreaming {vs : List Int64}
    (hsize : ((valuesMessage vs).write schema
      (schema.messageType clientStreamingMethod.output)).length < 0x100000000) :
    Answers clientStreamingMethod (vs.map fun v => valueMessage v.toInt) [vs.map Int64.toInt]
      .ok := by
  have hpacked := length_packed_le schema "example.ClientStreamingResponse" vs
  have hread := read?_valuesMessage schema "example.ClientStreamingResponse"
    (Nat.lt_of_le_of_lt hpacked (Nat.lt_trans hsize (by decide)))
  rw [← valuesOf_valuesReceived "example.ClientStreamingResponse" vs]
  exact answers_of_ok (arrives_clientStreaming vs) (servedStore_clientStreaming vs) [vs]
    valuesMessage valuesReceived (outcome_clientStreaming vs)
    (List.forall_mem_singleton.mpr hsize) (List.forall_mem_singleton.mpr hread)

/-! ### A stream of values, given back -/

theorem arrives_bidiStreaming (vs : List Int64) :
    Arrives bidiStreamingMethod (vs.map fun v => valueMessage v.toInt) :=
  arrives_valueMessages (.tail _ (.tail _ (.tail _ (.head _)))) rfl
    (rfl : _ = oneValue "example.BidiStreamingRequest") vs

theorem servedStore_bidiStreaming (vs : List Int64) :
    servedStore (.ofInputs bridge.codec bidiStreamingMethod
        (vs.map fun v => valueMessage v.toInt)) =
      .answer 0 (.ok (Store.respond (.array (vs.map fun v => Store.valueOf (numberJson v))))) := by
  have hpath : bidiStreamingPath ≠ serverStreamingPath := path_ne (by decide)
  have hbody := bodyJson?_stream (m := bidiStreamingMethod) rfl
    (rfl : _ = oneValue "example.BidiStreamingRequest") vs
  rw [servedStore_eq hbody fun h => absurd ((path_ofInputs ..).symm.trans h) hpath,
    store_bidiStreaming hbody (path_ofInputs ..)]

theorem answers_bidiStreaming (vs : List Int64) :
    Answers bidiStreamingMethod (vs.map fun v => valueMessage v.toInt)
      (vs.map fun v => [v.toInt]) .ok := by
  have houtcome := outcome_respond_values (m := bidiStreamingMethod) rfl rfl vs
  exact answers_of_values (arrives_bidiStreaming vs) (servedStore_bidiStreaming vs) rfl houtcome

/-! ### A stream that counts -/

/-- How far the server counts for some values: up to the first. -/
def countOf (vs : List Int64) : Nat :=
  ((vs.head?.map Int64.toInt).getD 0).toNat

/-- The values of the messages that count up to a number. -/
def counted (n : Nat) : List (List Int) :=
  (List.range n).map fun (i : Nat) => [(i + 1 : Int)]

theorem count_valuesOf (vs : List Int64) :
    Store.count (Store.valueOf (.array (vs.map numberJson))) = countOf vs := by
  cases vs with
  | nil => rfl
  | cons v vs =>
      simp only [Store.count, field_valueOf, Json.items, List.map_cons, List.head?_cons,
        Option.bind_some, int64?_number, countOf, Option.map_some]

theorem countOf_lt (vs : List Int64) : countOf vs < 0x8000000000000000 := by
  cases vs with
  | nil => decide
  | cons v vs =>
      have hupper := v.toInt_lt
      simp only [countOf, List.head?_cons, Option.map_some, Option.getD_some]
      omega

/-- The numbers from one up to some number. -/
def upTo (n : Nat) : List Int64 :=
  (List.range n).map fun i => Int64.ofNat (i + 1)

theorem toInt_ofNat_succ {n i : Nat} (hn : n < 0x8000000000000000) (hi : i ∈ List.range n) :
    (Int64.ofNat (i + 1)).toInt = i + 1 := by
  have hlt := List.mem_range.mp hi
  rw [Int64.toInt_ofNat_of_lt (by omega)]
  rfl

theorem map_upTo {α : Type} {n : Nat} (hn : n < 0x8000000000000000) (f : Int → α) :
    ((upTo n).map fun v => f v.toInt) = (List.range n).map fun (i : Nat) => f (i + 1) := by
  rw [upTo, List.map_map]
  exact List.map_congr_left fun i hi => congrArg f (toInt_ofNat_succ hn hi)

theorem servedStore_serverStreaming {vs : List Int64} (hcount : countOf vs ≤ Store.maxItems) :
    servedStore (.ofInputs bridge.codec serverStreamingMethod [valuesMessage vs]) =
      .answer 0 (.ok (Store.respond (.array
        ((upTo (countOf vs)).map fun v => Store.valueOf (numberJson v))))) := by
  have hbody := bodyJson?_serverStreaming vs
  have hnumbers := map_upTo (countOf_lt vs) fun n => Store.valueOf (.number (.int n))
  rw [servedStore_eq hbody fun _ => by rwa [count_valuesOf], store_serverStreaming hbody rfl,
    Store.serverStreaming, count_valuesOf, ← hnumbers]
  rfl

theorem answers_serverStreaming {vs : List Int64}
    (hsize : ((valuesMessage vs).write schema
      (schema.messageType serverStreamingMethod.input)).length ≤ 4194304)
    (hcount : countOf vs ≤ Store.maxItems) :
    Answers serverStreamingMethod [valuesMessage vs] (counted (countOf vs)) .ok := by
  have houtcome := outcome_respond_values (m := serverStreamingMethod) rfl rfl (upTo (countOf vs))
  rw [counted, ← map_upTo (countOf_lt vs) fun n => [n]]
  exact answers_of_values (arrives_serverStreaming hsize) (servedStore_serverStreaming hcount) rfl
    houtcome

/-! ### Calls that are too large -/

/-- A request that is longer than what is accepted is refused. -/
theorem answers_tooLarge {vs : List Int64}
    (hlarge : 4194304 < ((valuesMessage vs).write schema
      (schema.messageType serverStreamingMethod.input)).length)
    (hlt : ((valuesMessage vs).write schema
      (schema.messageType serverStreamingMethod.input)).length < 0x100000000) :
    Answers serverStreamingMethod [valuesMessage vs] [] .resourceExhausted := by
  have hlarge' : Reply.messageLimit < ((valuesMessage vs).write schema
      (schema.messageType serverStreamingMethod.input)).length := hlarge
  have hresponse : responseTo serverStreamingMethod (framesOf
        (schema.messageType serverStreamingMethod.input) [valuesMessage vs]) =
      (.ofStatus (FrameError.tooLarge ((valuesMessage vs).write schema
        (schema.messageType serverStreamingMethod.input)).length 4194304).toStatus, []) := by
    rw [responseTo, framesOf, List.flatMap_cons, List.flatMap_nil,
      Adapter.judge_of_error (Deframer.next_tooLarge hlt hlarge' [])]
    exact bridge.respond_refused _
  exact answers_of_status (.tail _ (.tail _ (.head _))) hresponse

/-- A stream that is longer than the longest array ends the task that counts, and so the call. -/
theorem answers_overflow {vs : List Int64}
    (hsize : ((valuesMessage vs).write schema
      (schema.messageType serverStreamingMethod.input)).length ≤ 4194304)
    (hcount : Store.maxItems < countOf vs) :
    Answers serverStreamingMethod [valuesMessage vs] [] .internal := by
  have harrives := arrives_serverStreaming hsize
  have hcrash := servedStore_crash (bodyJson?_serverStreaming vs) rfl
    (by rwa [count_valuesOf])
  refine answers_of_status (s := Pipe.noStatus) harrives.method ?_
  rw [harrives.responseTo_eq, Verdict.outlet, hcrash]
  exact bridge.respond_untouched

/-- As many numbers as make a request that is too long by a few bytes. -/
theorem answers_replicate : Answers serverStreamingMethod
    [valuesMessage (List.replicate 419431 (-1))] [] .resourceExhausted := by
  have hvarint : (Wire.varint (-1 : Int64).toUInt64.toNat).length = 10 := by
    have hnumber : (-1 : Int64).toUInt64.toNat = 18446744073709551615 := rfl
    rw [hnumber]
    simp [Wire.varint_of_le, Wire.varint_of_lt]
  have hpacked : (packed (List.replicate 419431 (-1))).length = 4194310 := by
    rw [length_packed_replicate, hvarint]
  have hheader : (Wire.varint 4194310).length = 4 := by
    simp [Wire.varint_of_le, Wire.varint_of_lt]
  have hlength : ((valuesMessage (List.replicate 419431 (-1))).write schema
      (schema.messageType serverStreamingMethod.input)).length = 4194315 := by
    refine (length_write_valuesMessage schema "example.ServerStreamingRequest" ?_).trans ?_
    · exact mt (List.replicate_eq_nil_iff (-1)).mp (by decide)
    · rw [hpacked, hheader]
  apply answers_tooLarge
  · rw [hlength]
    decide
  · rw [hlength]
    decide

/-- The frame of a payload whose length has lost its highest bit ends too early for a client. -/
theorem next_wrapped {bytes : List UInt8} (hlength : bytes.length = 4294967296) :
    Deframer.next { limit? := none
                    buffer := Frame.encode (10 :: 128 :: 128 :: 128 :: 128 :: 16 :: bytes) } =
      .ok (some [10, 128, 128, 128, 128, 16], { limit? := none, buffer := bytes }) := by
  have hsize : Frame.bigEndian 4 4294967302 = [0, 0, 0, 6] := rfl
  have hencode : Frame.encode (10 :: 128 :: 128 :: 128 :: 128 :: 16 :: bytes) =
      0 :: 0 :: 0 :: 0 :: 6 :: 10 :: 128 :: 128 :: 128 :: 128 :: 16 :: bytes := by
    simp only [Frame.encode, List.length_cons, hlength]
    rw [hsize]
    rfl
  rw [hencode]
  simp [Deframer.next, Frame.header?, Frame.ofBigEndian, Deframer.accept, Frame.headerLength,
    bind, Except.bind, pure, Except.pure]

/-- A response whose first payload is no message leaves the client without an answer. -/
theorem not_answers_of_next {vs : List Int64} {payload : List UInt8} {rest : Deframer}
    (hnext : Deframer.next { limit? := none
                             buffer := Frame.encode ((valuesMessage vs).write schema
                               (schema.messageType clientStreamingMethod.output)) } =
      .ok (some payload, rest))
    (hread : Message.read? schema (schema.messageType clientStreamingMethod.output) payload = none)
    (values : List (List Int)) (code : Code) :
    ¬ Answers clientStreamingMethod (vs.map fun v => valueMessage v.toInt) values code := by
  intro hanswers
  have harrives := arrives_clientStreaming vs
  have hresponse := harrives.responseTo_answer (servedStore_clientStreaming vs)
  rw [outcome_clientStreaming, Outlet.ofOutcome, Bridge.respond_delivered] at hresponse
  obtain ⟨served, r, hcall, hr, -⟩ := hanswers [framesOf _ _] List.flatten_singleton
  obtain ⟨served', hcall', hserved⟩ := answer_chunkedRequest harrives.method [framesOf _ _]
  obtain rfl := Switch.Answer.call.inj (hcall.symm.trans hcall')
  rw [List.flatten_singleton, hresponse] at hserved
  obtain ⟨e, he⟩ := readResponse_undecodable hnext hread hserved
  cases hr.symm.trans he

theorem not_answers_zeros (values : List (List Int)) (code : Code) :
    ¬ Answers clientStreamingMethod
      ((List.replicate 4294967296 0).map fun v : Int64 => valueMessage v.toInt) values code := by
  have hvarint : Wire.varint 4294967296 = [128, 128, 128, 128, 16] := by
    simp [Wire.varint_of_le, Wire.varint_of_lt]
  have hwrite := write_zeros schema "example.ClientStreamingResponse" (n := 4294967296) (by decide)
  rw [hvarint] at hwrite
  have hnext :=
    calc Deframer.next ⟨none, Frame.encode ((valuesMessage (List.replicate 4294967296 0)).write
            schema (schema.messageType clientStreamingMethod.output))⟩
        = Deframer.next ⟨none, Frame.encode (10 :: 128 :: 128 :: 128 :: 128 :: 16 ::
            List.replicate 4294967296 0)⟩ :=
          congrArg (fun bytes => Deframer.next ⟨none, Frame.encode bytes⟩) hwrite
      _ = .ok (some [10, 128, 128, 128, 128, 16], ⟨none, List.replicate 4294967296 0⟩) :=
          next_wrapped List.length_replicate
  have hread : Message.read? schema (schema.messageType clientStreamingMethod.output)
      [10, 128, 128, 128, 128, 16] = none := by
    cbv
  exact not_answers_of_next hnext hread values code

/-! ### All calls -/

/-- The server answers every call of its four methods as it was recorded, whatever the values and
however the bytes of the request are cut into chunks, where the length of the one response to a
stream fits a frame, the one request for a stream is accepted, and the stream asked for is no longer
than the longest array. -/
theorem answers_recorded (vs : List Int64) (v : Int64) :
    (((valuesMessage vs).write schema
        (schema.messageType clientStreamingMethod.output)).length < 0x100000000 →
      Answers clientStreamingMethod (vs.map fun v => valueMessage v.toInt) [vs.map Int64.toInt]
        .ok) ∧
    Answers bidiStreamingMethod (vs.map fun v => valueMessage v.toInt) (vs.map fun v => [v.toInt])
      .ok ∧
    (((valuesMessage vs).write schema
        (schema.messageType serverStreamingMethod.input)).length ≤ 4194304 →
      countOf vs ≤ Store.maxItems →
      Answers serverStreamingMethod [valuesMessage vs] (counted (countOf vs)) .ok) ∧
    (v ≠ 404 → v ≠ 503 → Answers unaryMethod [valueMessage v.toInt] [[v.toInt]] .ok) ∧
    Answers unaryMethod [valueMessage 404] [] .notFound ∧
    Answers unaryMethod [valueMessage 503] [] .unavailable :=
  ⟨answers_clientStreaming, answers_bidiStreaming vs, answers_serverStreaming, answers_unary,
    answers_notFound, answers_unavailable⟩

theorem answers_recorded_pair :
    Answers clientStreamingMethod [valueMessage 3, valueMessage (-5)] [[3, -5]] .ok ∧
    Answers bidiStreamingMethod [valueMessage 3, valueMessage (-5)] [[3], [-5]] .ok ∧
    Answers serverStreamingMethod [valuesMessage [3, -5]] [[1], [2], [3]] .ok ∧
    Answers unaryMethod [valueMessage 42] [[42]] .ok ∧
    Answers unaryMethod [valueMessage 404] [] .notFound ∧
    Answers unaryMethod [valueMessage 503] [] .unavailable := by
  obtain ⟨hclient, hbidi, hserver, hunary, hfailures⟩ := answers_recorded [3, -5] 42
  exact ⟨hclient (by cbv), hbidi, hserver (by cbv) (by decide), hunary (by decide) (by decide),
    hfailures⟩

/-- Without the bounds the server does not answer so: a request for a stream that is too long is
refused, a stream that is too long is never counted, and of a response that is too long a client
reads no message. -/
theorem not_answers_large :
    ¬ Answers serverStreamingMethod [valuesMessage (List.replicate 419431 (-1))] [] .ok ∧
    ¬ Answers serverStreamingMethod [valuesMessage [9223372036854775807]]
      (counted 9223372036854775807) .ok ∧
    ¬ Answers clientStreamingMethod
      ((List.replicate 4294967296 0).map fun v : Int64 => valueMessage v.toInt)
      [(List.replicate 4294967296 0).map Int64.toInt] .ok := by
  refine ⟨fun hanswers => ?_, fun hanswers => ?_, not_answers_zeros _ _⟩
  · cases (hanswers.unique answers_replicate).2
  · have hoverflow : Answers serverStreamingMethod [valuesMessage [9223372036854775807]] []
        .internal := answers_overflow (by cbv) (by decide)
    cases (hanswers.unique hoverflow).2

end GrpcContract.Sample
