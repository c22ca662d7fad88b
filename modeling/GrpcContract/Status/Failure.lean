import GrpcContract.Status.Basic

/-!
Failures at the edges of the library, and the status each one stands for.
-/

namespace GrpcContract

inductive Failure
  /-- The caller's input cannot be used. -/
  | argument (message : String)
  /-- A text is no message of its type. -/
  | parse (message : String)
  /-- A stub answered with a status. -/
  | answered (status : Status)
  /-- The other side could not be reached. -/
  | transport (message : String)
  /-- The library is not set up for what is asked. -/
  | state (message : String)
deriving DecidableEq, Inhabited

namespace Failure

def toStatus : Failure → Status
  | argument message => .because .invalidArgument message
  | parse message => .because .internal message
  | answered status => status
  | transport message => .because .unavailable message
  | state message => .because .internal message

def describe : Failure → String
  | argument message => "invalid argument: " ++ message
  | parse message => "parse error: " ++ message
  | answered status => "match failure: " ++ status.describe
  | transport message => "transport error: " ++ message
  | state message => "illegal state: " ++ message

end Failure

end GrpcContract
