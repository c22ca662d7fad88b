import GrpcContract.Text.Blank
import GrpcContract.Text.Numeral

/-!
The seventeen status codes of a call.
-/

namespace GrpcContract

inductive Code
  | ok
  | cancelled
  | unknown
  | invalidArgument
  | deadlineExceeded
  | notFound
  | alreadyExists
  | permissionDenied
  | resourceExhausted
  | failedPrecondition
  | aborted
  | outOfRange
  | unimplemented
  | internal
  | unavailable
  | dataLoss
  | unauthenticated
deriving DecidableEq, Inhabited

namespace Code

def all : List Code :=
  [ok, cancelled, unknown, invalidArgument, deadlineExceeded, notFound, alreadyExists,
    permissionDenied, resourceExhausted, failedPrecondition, aborted, outOfRange, unimplemented,
    internal, unavailable, dataLoss, unauthenticated]

def toNat (c : Code) : Nat := c.ctorIdx

/-- The code of a number; a number that has none means an unknown status. -/
def ofInt (n : Int) : Code :=
  if 0 ≤ n then (all[n.toNat]?).getD unknown else unknown

def name : Code → String
  | ok => "OK"
  | cancelled => "CANCELLED"
  | unknown => "UNKNOWN"
  | invalidArgument => "INVALID_ARGUMENT"
  | deadlineExceeded => "DEADLINE_EXCEEDED"
  | notFound => "NOT_FOUND"
  | alreadyExists => "ALREADY_EXISTS"
  | permissionDenied => "PERMISSION_DENIED"
  | resourceExhausted => "RESOURCE_EXHAUSTED"
  | failedPrecondition => "FAILED_PRECONDITION"
  | aborted => "ABORTED"
  | outOfRange => "OUT_OF_RANGE"
  | unimplemented => "UNIMPLEMENTED"
  | internal => "INTERNAL"
  | unavailable => "UNAVAILABLE"
  | dataLoss => "DATA_LOSS"
  | unauthenticated => "UNAUTHENTICATED"

/-- The code with a name; one of them is also known by a second spelling. -/
def ofName? (s : String) : Option Code :=
  if s = "CANCELED" then some cancelled else all.find? (·.name == s)

def readNumber? (s : String) : Option Int :=
  Text.readIntIn? (-0x80000000) 0x7FFFFFFF (Text.trim s.toList)

def ofText? (s : String) : Option Code :=
  (readNumber? s).map ofInt <|> ofName? (String.ofList (Text.trim s.toList))

end Code

end GrpcContract
