import GrpcContract.Http.Headers
import GrpcContract.Json.Parser
import GrpcContract.Status.Failure
import GrpcContract.Status.Headers
import GrpcContract.Text.Quoted

/-!
Contracts: requests and responses as a fixture writes them. A request has parts that no call can
have; they are kept, so that a request which uses them can be refused.
-/

namespace GrpcContract

structure ContractRequest where
  verb? : Option String := none
  path? : Option String := none
  headers : Headers := .empty
  query : List (String × String) := []
  cookies : List (String × String) := []
  body? : Option String := none
deriving DecidableEq, Inhabited

/-- A contract response. Failures of a call are told in its headers, so its status is always 200. -/
structure ContractResponse where
  status : Nat := 200
  headers : Headers
  body? : Option String := none
deriving DecidableEq, Inhabited

namespace ContractRequest

def grpc (path body : String) : ContractRequest :=
  { verb? := some "POST"
    path? := some path
    headers := Headers.empty.insertText HeaderName.contentType grpcContentType
    body? := some body }

/-- Refuses what cannot be told by a call: a method other than POST, another content type, a
query and cookies. -/
def checkForm (r : ContractRequest) : Except Failure Unit := do
  match r.verb? with
  | some verb =>
    if verb ≠ "POST" then throw (.argument s!"gRPC requests must use POST, got {verb}")
  | none => pure ()
  match r.headers.get? HeaderName.contentType with
  | some value =>
    if !(headerText? value).any isGrpcContentType then
      throw (.argument ("gRPC requests must use the application/grpc content type, got " ++
        Text.quoteBytes value))
  | none => pure ()
  if !r.query.isEmpty then throw (.argument "gRPC requests cannot carry query parameters")
  if !r.cookies.isEmpty then throw (.argument "gRPC requests cannot carry cookies")

/-- The path of the request, which begins with a slash. -/
def checkPath (r : ContractRequest) : Except Failure String :=
  match r.path?.filter (!·.isEmpty) with
  | none => .error (.argument "request path is required")
  | some path =>
    match path.toList with
    | '/' :: _ => .ok path
    | _ => .error (.argument ("request path must start with '/', got " ++ Text.quote path))

def validate (r : ContractRequest) : Except Failure (String × String) := do
  r.checkForm
  let path ← r.checkPath
  match r.body? with
  | some body => return (path, body)
  | none => throw (.argument "request body is required")

end ContractRequest

namespace ContractResponse

/-- The JSON value of the body, which may not be readable. -/
def bodyJson? (r : ContractResponse) : Option (Option Json) :=
  r.body?.map Json.parseSorted?

end ContractResponse

end GrpcContract
