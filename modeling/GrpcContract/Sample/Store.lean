import GrpcContract.Sample.Schema
import GrpcContract.Stub.Matcher

/-!
A sample matcher for the sample service. It echoes single values and streams in both directions,
gathers the values of a client's stream, and counts up to the number that a server is to stream.
Two values are answered with failures, one by a status and one by HTTP alone.
-/

namespace GrpcContract.Sample

namespace Store

def notFoundValue : Int := 404

/-- The value that is answered with a bare HTTP status, as by a server in trouble. -/
def unavailableValue : Int := 503

def valueOf (json : Json) : Json := .object [("value", json)]

def respond (json : Json) : StubResponse := .ok json.render

def unary (input : Json) : StubResponse :=
  let value? := (input.field "value").int64?
  if value? = some notFoundValue then .failure (.because .notFound "no stub for 404")
  else if value? = some unavailableValue then { status := 503 }
  else respond input

/-- The answer to a stream of values: all of them. -/
def clientStreaming (input : Json) : StubResponse :=
  respond (valueOf (.array (input.items.map (·.field "value"))))

/-- How far the server is to count: up to the first value. -/
def count (input : Json) : Nat :=
  (((input.field "value").items.head?.bind Json.int64?).getD 0).toNat

/-- The answer to a count: the numbers from one up to it. -/
def serverStreaming (input : Json) : StubResponse :=
  respond (.array ((List.range (count input)).map fun (i : Nat) => valueOf (.number (.int (i + 1)))))

/-- The length of the longest array. A value takes 32 bytes, and the bytes of an array are counted by
a signed number of 64 bits. -/
def maxItems : Nat := 0x7fffffffffffffff / 32

/-- Whether the answer to a count would be longer than the longest array. -/
def overflows (request : StubRequest) : Bool :=
  request.path = serverStreamingPath && request.bodyJson?.any fun input => maxItems < count input

def unknown : StubResponse :=
  { status := 404, body? := some "No response could be served" }

end Store

open Store in
def store : Matcher := fun request =>
  match request.bodyJson? with
  | none => .error "the body is no JSON text"
  | some input =>
    if request.path = unaryPath then .ok (unary input)
    else if request.path = clientStreamingPath then .ok (clientStreaming input)
    else if request.path = serverStreamingPath then .ok (serverStreaming input)
    else if request.path = bidiStreamingPath then .ok (respond input)
    else .ok unknown

end GrpcContract.Sample
