import GrpcContract.Codec
import GrpcContract.Status.Headers
import GrpcContract.Status.OfHttp

/-!
Responses of a stub matcher, and what they mean for a call: output messages, or the status of a
failure. A status in the headers decides alone; without one, the HTTP status does.
-/

namespace GrpcContract

structure StubResponse where
  status : Nat := 200
  headers : Headers := .empty
  body? : Option String := none
deriving DecidableEq, Inhabited

namespace StubResponse

def ok (body : String) : StubResponse := { body? := some body }

def failure (s : Status) : StubResponse := { headers := s.headers }

/-- A response as it came over HTTP; an empty body is none. -/
def ofHttp (status : Nat) (headers : Headers) (body : String) : StubResponse :=
  ⟨status, headers, if body.isEmpty then none else some body⟩

def callStatus (r : StubResponse) : Status :=
  match r.headers.status? with
  | some s => s
  | none =>
    if HttpStatus.isSuccess r.status then .ok
    else
      .because (.ofHttp r.status) ("stub answered with HTTP " ++ HttpStatus.describe r.status)

def failure? (r : StubResponse) : Option Failure :=
  if r.callStatus.isOk then none else some (.answered r.callStatus)

/-- The output messages that the response gives, one of them or a sequence. -/
def outputs (c : Codec) (t : MessageType) (streaming : Bool) (r : StubResponse) :
    Except Status (List Message) :=
  match r.failure? with
  | some e => .error e.toStatus
  | none =>
    let body := r.body?.getD ""
    if streaming then
      (c.decodeMany t body).mapError fun e => .because .internal
        ("Response body must contain an array of valid output messages: " ++ e.describe)
    else
      match c.decode t body with
      | .ok m => .ok [m]
      | .error e => .error (.because .internal
          ("Response body must contain a valid output message: " ++ e.describe))

end StubResponse

end GrpcContract
