import GrpcContract.Sample.Server

/-!
Cases that try the sample server: calls whose bytes are looked at, and contracts that are verified.
A case passes, or it tells what it found.
-/

namespace GrpcContract.Sample

structure Case where
  name : String
  result : Except String Unit

/-- What a call to the server came to. -/
structure CallResult where
  type : MessageType
  messages : List Message
  status : Status

def callRequest (path : String) (t : MessageType) (inputs : List Message) : HttpRequest :=
  { path
    headers := StubRequest.callHeaders
    body := [.event (.data (inputs.flatMap fun m => Frame.encode (m.write schema t)))] }

/-- Reads the response to a call as a client would that knows only frames and headers. -/
def readResponse (t : MessageType) (served : Served) : Except String CallResult := do
  if served.head.status ≠ 200 then
    throw ("expected HTTP 200, got " ++ HttpStatus.describe served.head.status)
  let bytes := served.body.flatMap fun part => match part with
    | .data bytes => bytes
    | _ => []
  let trailers? := served.body.findSome? fun part => match part with
    | .trailers h => some h
    | _ => none
  let (payloads, rest) := Deframer.drain { limit? := none, buffer := bytes }
  let messages ← payloads.mapM fun payload =>
    match Message.read? schema t payload with
    | some m => pure m
    | none => throw ("the bytes are no message of type " ++ t.name)
  match rest.bind Deframer.finish with
  | .error e => throw e.describe
  | .ok () => pure ()
  match trailers?.bind Headers.status? <|> served.head.headers.status? with
  | some status => return { type := t, messages, status }
  | none => throw "response carried no grpc-status"

def call (path : String) (input : MessageType) (inputs : List Message) (output : MessageType) :
    Except String CallResult :=
  match server.answer (callRequest path input inputs) with
  | .call served => readResponse output served
  | .plain response => throw ("expected HTTP 200, got " ++ HttpStatus.describe response.status)

/-- The value of a message, or its values. -/
def valuesOf (t : MessageType) (m : Message) : List Int :=
  let number? : Value → Option Int
    | .scalar (.int64 n) => some n.toInt
    | _ => none
  match (t.named? "value").map m.get with
  | some (.single v) => (number? v).toList
  | some (.list vs) => vs.filterMap number?
  | some (.map _) | none => []

def valueMessage (n : Int) : Message :=
  Message.empty.put 1 (.single (.scalar (.int64 (.ofInt n))))

def expectValues (r : CallResult) (expected : List Int) : Except String Unit := do
  if !r.status.isOk then throw ("expected OK, got " ++ r.status.describe)
  let values := r.messages.flatMap (valuesOf r.type)
  if values ≠ expected then throw s!"expected values {expected}, got {values}"

def expectCode (r : CallResult) (code : Code) : Except String Unit := do
  if r.status.code ≠ code then throw s!"expected {code.name}, got {r.status.describe}"
  if !r.messages.isEmpty then throw s!"expected no messages, got {r.messages.length}"

namespace WireCase

def unaryCall (n : Int) : Except String CallResult :=
  call unaryPath (oneValue "example.UnaryRequest") [valueMessage n]
    (oneValue "example.UnaryResponse")

def unary : Except String Unit := do
  expectValues (← unaryCall 42) [42]

def clientStream : Except String Unit := do
  let r ← call clientStreamingPath (oneValue "example.ClientStreamingRequest")
    ([1, 2, 3, 4, 5].map valueMessage) (manyValues "example.ClientStreamingResponse")
  if r.messages.length ≠ 1 then throw s!"expected one response, got {r.messages.length}"
  expectValues r [1, 2, 3, 4, 5]

def serverStream : Except String Unit := do
  let input := Message.empty.put 1 (.list [.scalar (.int64 5)])
  let r ← call serverStreamingPath (manyValues "example.ServerStreamingRequest") [input]
    (oneValue "example.ServerStreamingResponse")
  expectValues r [1, 2, 3, 4, 5]

def bidiStream : Except String Unit := do
  let r ← call bidiStreamingPath (oneValue "example.BidiStreamingRequest")
    ([7, 8, 9].map valueMessage) (oneValue "example.BidiStreamingResponse")
  expectValues r [7, 8, 9]

def failureStatus : Except String Unit := do
  let r ← unaryCall Store.notFoundValue
  expectCode r .notFound
  if r.status.message? ≠ some "no stub for 404" then
    throw ("unexpected grpc-message: " ++
      BridgeConfig.describeOption Text.quote r.status.message?)

def unavailable : Except String Unit := do
  expectCode (← unaryCall Store.unavailableValue) .unavailable

def unknownMethod : Except String Unit := do
  let r ← call (pathOf "NoSuchMethod") (oneValue "example.UnaryRequest") [valueMessage 1]
    (oneValue "example.UnaryResponse")
  expectCode r .unimplemented

def plainHttp : Except String Unit :=
  match server.answer { verb := "GET", path := healthPath, headers := .empty } with
  | .plain response => do
    if response.status ≠ 200 then
      throw ("expected HTTP 200, got " ++ HttpStatus.describe response.status)
    if response.text ≠ "ok" then
      throw ("expected body \"ok\", got " ++ Text.quote response.text)
  | .call _ => throw "expected a page, got a call"

def all : List Case :=
  [⟨"unary echo", unary⟩, ⟨"client stream of five", clientStream⟩,
    ⟨"server stream of five", serverStream⟩, ⟨"bidi stream", bidiStream⟩,
    ⟨"stub failure status", failureStatus⟩, ⟨"stub HTTP 503", unavailable⟩,
    ⟨"unknown method", unknownMethod⟩, ⟨"plain HTTP fallback", plainHttp⟩]

end WireCase

namespace ContractCase

def verifier : Verifier := { registry, codec := ⟨schema, {}⟩ }

def exchange (r : ContractRequest) : Except Failure ContractResponse :=
  (verifier.exchange endpoint r).outcome

def expectResponse (r : ContractRequest) : Except String ContractResponse :=
  (exchange r).mapError Failure.describe

def expectBody (r : ContractRequest) (expected : Json) : Except String Unit := do
  match (← expectResponse r).bodyJson? with
  | none => throw "expected a body"
  | some none => throw "expected a JSON text"
  | some (some body) =>
    if body.render ≠ expected.render then
      throw ("expected body " ++ expected.render ++ ", got " ++ body.render)

def number (n : Int) : Json := .number (.int n)

def values (ns : List Int) : Json := .array (ns.map fun n => Store.valueOf (number n))

def unary : Except String Unit :=
  expectBody (.grpc unaryPath "\x7b\"value\":\"12\"\x7d") (Store.valueOf (number 12))

def clientStream : Except String Unit :=
  expectBody (.grpc clientStreamingPath (values [1, 2, 3]).render)
    (Store.valueOf (.array ([1, 2, 3].map number)))

def serverStream : Except String Unit :=
  expectBody (.grpc serverStreamingPath (Store.valueOf (.array [number 2])).render) (values [1, 2])

def bidiStream : Except String Unit :=
  let item := Json.object [
    ("clientValue", Store.valueOf (number 5)), ("serverValue", Store.valueOf (number 50)),
    ("singleValue", .bool true)]
  expectBody (.grpc bidiStreamingPath (Json.array [item, Store.valueOf (number 6)]).render)
    (values [5, 6])

def failureStatus : Except String Unit := do
  let r ← expectResponse
    (.grpc unaryPath (Store.valueOf (number Store.notFoundValue)).render)
  let status? := r.headers.text? HeaderName.grpcStatus
  if status? ≠ some "5" then
    throw ("expected grpc-status 5, got " ++ BridgeConfig.describeOption Text.quote status?)
  let message? := r.headers.text? HeaderName.grpcMessage
  if message? ≠ some "no stub for 404" then
    throw ("unexpected grpc-message " ++ BridgeConfig.describeOption Text.quote message?)
  if r.body?.isSome then throw "failure response should have no body"

def rejectsQuery : Except String Unit :=
  match exchange { ContractRequest.grpc unaryPath "\x7b\x7d" with query := [("page", "1")] } with
  | .error (.argument _) => .ok ()
  | .error e => .error ("expected an argument error, got " ++ e.describe)
  | .ok _ => .error "expected an argument error, got a response"

def all : List Case :=
  [⟨"verify unary", unary⟩, ⟨"verify client stream", clientStream⟩,
    ⟨"verify server stream", serverStream⟩, ⟨"verify bidi clientValue", bidiStream⟩,
    ⟨"verify failure status", failureStatus⟩, ⟨"verify rejects query params", rejectsQuery⟩]

end ContractCase

/-- A report on cases: its lines, and how many of all cases passed. -/
structure Report where
  lines : List String
  passed : Nat
  total : Nat

namespace Report

def line (label : String) (c : Case) : String :=
  match c.result with
  | .ok () => "  PASS  " ++ label ++ " / " ++ c.name
  | .error e => "  FAIL  " ++ label ++ " / " ++ c.name ++ ": " ++ e

def ofGroups (groups : List (String × List Case)) : Report :=
  let cases := groups.flatMap (·.2)
  let passed := cases.countP fun c => c.result.isOk
  { lines := "=== gRPC Stub Integration Tests ===" ::
      groups.flatMap (fun (label, cases) => cases.map (line label)) ++
      ["", s!"{passed}/{cases.length} passed"]
    passed
    total := cases.length }

def exitCode (r : Report) : UInt8 := if r.passed = r.total then 0 else 1

end Report

def report : Report :=
  .ofGroups [
    ("Stub Server + Raw h2 Client", WireCase.all),
    ("Stub Server + Contract Verifier", ContractCase.all)]

end GrpcContract.Sample
