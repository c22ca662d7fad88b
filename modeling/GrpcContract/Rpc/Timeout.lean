import GrpcContract.Status.Headers
import GrpcContract.Text.Numeral

/-!
Time limits of calls. A client announces one as one to eight digits and a letter for the unit;
the shorter of the client's and the server's limit holds. Durations are in nanoseconds.
-/

namespace GrpcContract

namespace Timeout

def unit? : Char → Option Nat
  | 'H' => some 3600000000000
  | 'M' => some 60000000000
  | 'S' => some 1000000000
  | 'm' => some 1000000
  | 'u' => some 1000
  | 'n' => some 1
  | _ => none

/-- What reading a written time limit comes to. -/
inductive Reading
  | nanos (n : Nat)
  | malformed
  /-- The last byte of the text is a part of a longer character, so it cannot be cut off. -/
  | split
deriving DecidableEq, Inhabited

def Reading.nanos? : Reading → Option Nat
  | nanos n => some n
  | _ => none

/-- Reads digits followed by a unit. A text of fewer than two bytes has no room for both. -/
def read (s : String) : Reading :=
  match s.toList.reverse with
  | [] => .malformed
  | last :: digits =>
    if s.utf8ByteSize < 2 then .malformed
    else if last.utf8Size ≠ 1 then .split
    else if digits.isEmpty || 8 < digits.length || !digits.all Char.isDigit then .malformed
    else
      match unit? last with
      | some unit => .nanos (Text.natOfDigits digits.reverse * unit)
      | none => .malformed

def ofHeaders? (h : Headers) : Option Nat :=
  (h.text? HeaderName.grpcTimeout).bind fun value => (read value).nanos?

def shorter? : Option Nat → Option Nat → Option Nat
  | some a, some b => some (min a b)
  | some a, none => some a
  | none, b => b

end Timeout

end GrpcContract
