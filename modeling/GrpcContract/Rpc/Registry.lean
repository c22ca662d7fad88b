import GrpcContract.Schema.Basic
import GrpcContract.Status.Failure

/-!
Methods under their request paths. A registry holds the methods of some services, each under the
key `service/method`.
-/

namespace GrpcContract

namespace Method

def key (m : Method) : String := m.service ++ "/" ++ m.name

def path (m : Method) : String := "/" ++ m.key

end Method

/-- How many messages go each way. -/
inductive CallShape
  | unary
  | clientStreaming
  | serverStreaming
  | bidiStreaming
deriving DecidableEq, Inhabited

namespace CallShape

def isClientStreaming : CallShape → Bool
  | clientStreaming | bidiStreaming => true
  | unary | serverStreaming => false

def isServerStreaming : CallShape → Bool
  | serverStreaming | bidiStreaming => true
  | unary | clientStreaming => false

def name : CallShape → String
  | unary => "unary"
  | clientStreaming => "client_streaming"
  | serverStreaming => "server_streaming"
  | bidiStreaming => "bidi_streaming"

end CallShape

def Method.shape (m : Method) : CallShape :=
  match m.clientStreaming, m.serverStreaming with
  | false, false => .unary
  | true, false => .clientStreaming
  | false, true => .serverStreaming
  | true, true => .bidiStreaming

/-- The key that a request path means: what follows its slash. -/
def methodKey (path : String) : Except Failure String :=
  match path.toList with
  | [] => .error (.argument "request path is required")
  | '/' :: key => .ok (String.ofList key)
  | _ => .error (.argument s!"request path must start with a slash: {path}")

/-- Methods by key; no key occurs twice. -/
structure Registry where
  entries : List (String × Method) := []
deriving Inhabited

namespace Registry

def empty : Registry := ⟨[]⟩

def add (r : Registry) (m : Method) : Registry :=
  ⟨r.entries.filter (·.1 != m.key) ++ [(m.key, m)]⟩

def ofMethods (ms : List Method) : Registry :=
  ms.foldl add empty

def serviceNamed (s : Schema) (name : String) : Except Failure Service :=
  match s.service? name with
  | some service => .ok service
  | none => .error (.state s!"no schema descriptor for service {name}")

def ofServices (s : Schema) (names : List String) : Except Failure Registry := do
  let services ← names.mapM (serviceNamed s)
  if services.isEmpty then throw (.argument "services cannot be empty")
  return ofMethods (services.flatMap (·.methods))

def get? (r : Registry) (key : String) : Option Method :=
  r.entries.lookup key

def resolve (r : Registry) (path : String) : Except Failure Method := do
  match r.get? (← methodKey path) with
  | some m => return m
  | none => throw (.state s!"no gRPC method related to the given path: {path}")

def size (r : Registry) : Nat := r.entries.length

def keys (r : Registry) : List String :=
  (r.entries.map (·.1)).mergeSort fun a b => a ≤ b

end Registry

end GrpcContract
