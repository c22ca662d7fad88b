import GrpcContract.Client.Reply
import GrpcContract.Contract.Basic
import GrpcContract.Http.Target

/-!
Verifying contracts. An exchange makes the call that a contract request describes and packs the
outcome as a contract response. It fails only where no call can be made of the request, and then
the endpoint sees nothing of it; whatever the endpoint does is told in the response.
-/

namespace GrpcContract

/-- Where calls are sent. It may never be ready for one, it may fail one, or it replies. -/
structure Endpoint where
  readiness : Except String Unit := .ok ()
  call : HttpRequest → Except String Reply

/-- What an endpoint sees of an exchange. -/
inductive Contact
  /-- It is asked whether it is ready. -/
  | poll
  | call (r : HttpRequest)
deriving Inhabited

/-- An exchange: what came of it, and what the endpoint saw. -/
structure Exchange where
  outcome : Except Failure ContractResponse
  contacts : List Contact := []

namespace Exchange

def calls (e : Exchange) : List HttpRequest :=
  e.contacts.filterMap fun contact => match contact with
    | .call r => some r
    | .poll => none

end Exchange

def Bridge.endpoint (b : Bridge) (f : TimedMatcher) : Endpoint where
  call r := .ok (.ofServed (b.serve f r))

/-- A method and its input messages, ready to be called at a path. -/
structure PlannedCall where
  method : Method
  path : String
  inputs : List Message
deriving Inhabited

/-- The registry of the methods that can be called, and the codec for texts in contracts. -/
structure Verifier where
  registry : Registry
  codec : Codec
deriving Inhabited

namespace Verifier

def inputType (v : Verifier) (m : Method) : MessageType := v.codec.schema.messageType m.input

def outputType (v : Verifier) (m : Method) : MessageType := v.codec.schema.messageType m.output

/-- The input messages that a body means, as many as the shape of the method asks for. -/
def inputs (v : Verifier) (m : Method) (body : String) : Except Failure (List Message) :=
  if m.shape.isClientStreaming then v.codec.decodeMany (v.inputType m) body
  else do return [← v.codec.decode (v.inputType m) body]

/-- The path that a call is made at. Texts that begin with a slash need not be targets. -/
def callPath (path : String) : Except Failure String :=
  if Target.isValid path then .ok (targetPath path)
  else .error (.argument
    ("invalid request path " ++ Text.quote path ++ ": invalid uri character"))

def plan (v : Verifier) (r : ContractRequest) : Except Failure PlannedCall := do
  let (path, body) ← r.validate
  let method ← v.registry.resolve path
  let path ← callPath path
  return { method, path, inputs := ← v.inputs method body }

def request (v : Verifier) (c : PlannedCall) : HttpRequest :=
  let frames := c.inputs.flatMap fun m =>
    Frame.encode (m.write v.codec.schema (v.inputType c.method))
  { path := c.path
    headers := StubRequest.callHeaders
    body := if c.inputs.isEmpty then [] else [.event (.data frames)] }

/-- The output messages of a call, or the status of its failure. -/
def outputs (v : Verifier) (e : Endpoint) (c : PlannedCall) : Except Status (List Message) :=
  match e.readiness with
  | .error text => .error (.because .unavailable ("service was not ready: " ++ text))
  | .ok () =>
    match e.call (v.request c) with
    | .error text => .error (.because .unknown text)
    | .ok reply =>
      reply.messages v.codec.schema (v.outputType c.method) c.method.shape.isServerStreaming

def contacts (v : Verifier) (e : Endpoint) (c : PlannedCall) : List Contact :=
  match e.readiness with
  | .error _ => [.poll]
  | .ok () => [.poll, .call (v.request c)]

/-- The text of output messages: of the one, or of the sequence. -/
def render (v : Verifier) (m : Method) (ms : List Message) : String :=
  match ms, m.shape.isServerStreaming with
  | [one], false => (v.codec.encode (v.outputType m) one).render
  | _, _ => (v.codec.encodeMany (v.outputType m) ms).render

def baseHeaders : Headers :=
  Headers.empty.insertText HeaderName.contentType grpcContentType

/-- The response for the outcome of a call: a body, or a status in the headers. -/
def package (v : Verifier) (m : Method) : Except Status (List Message) → ContractResponse
  | .ok ms =>
    { headers := (baseHeaders.insertText HeaderName.grpcEncoding identityEncoding).insertText
        HeaderName.grpcAcceptEncoding identityEncoding
      body? := some (v.render m ms) }
  | .error s => { headers := baseHeaders.insertStatus s.withoutEmptyMessage }

/-- Makes the call that a request describes, at an endpoint. -/
def exchange (v : Verifier) (e : Endpoint) (r : ContractRequest) : Exchange :=
  match v.plan r with
  | .error failure => { outcome := .error failure }
  | .ok c => { outcome := .ok (v.package c.method (v.outputs e c)), contacts := v.contacts e c }

/-- Makes the call and waits for it, which is not possible inside a task that others wait for. -/
def exchangeBlocking (v : Verifier) (insideRuntime : Bool) (e : Endpoint) (r : ContractRequest) :
    Exchange :=
  if insideRuntime then
    { outcome := .error (.state
        "exchange_blocking cannot be called from within an async runtime") }
  else v.exchange e r

end Verifier

end GrpcContract
