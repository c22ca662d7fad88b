import GrpcContract.Bridge

/-!
A switch in front of a bridge: requests that announce a call go to the bridge, all others to a
service that knows nothing of calls.
-/

namespace GrpcContract

/-- The response of a service that knows nothing of calls. -/
structure PlainResponse where
  status : Nat := 200
  headers : Headers := .empty
  text : String := ""
deriving DecidableEq, Inhabited

structure Switch where
  bridge : Bridge
  matcher : TimedMatcher
  other : HttpRequest → PlainResponse

/-- Who answered a request, and what. -/
inductive Switch.Answer
  | call (served : Served)
  | plain (response : PlainResponse)
deriving Inhabited

def Switch.answer (s : Switch) (r : HttpRequest) : Switch.Answer :=
  if r.headers.announcesGrpc then .call (s.bridge.serve s.matcher r) else .plain (s.other r)

end GrpcContract
