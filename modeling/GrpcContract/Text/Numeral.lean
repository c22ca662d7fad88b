/-!
Decimal integers as plain text: an optional sign and one or more ASCII digits, nothing else.
-/

namespace GrpcContract.Text

/-- The number written by decimal digits, most significant first. -/
def natOfDigits (cs : List Char) : Nat :=
  cs.foldl (fun n c => 10 * n + (c.toNat - '0'.toNat)) 0

def readDigits? (cs : List Char) : Option Nat :=
  if cs ≠ [] ∧ cs.all Char.isDigit then some (natOfDigits cs) else none

/-- Reads digits with an optional plus sign; a minus sign is refused, also before zero. -/
def readNat? : List Char → Option Nat
  | '+' :: cs => readDigits? cs
  | cs => readDigits? cs

def readInt? : List Char → Option Int
  | '-' :: cs => (readDigits? cs).map fun n => -(n : Int)
  | cs => (readNat? cs).map Int.ofNat

def readIntIn? (lo hi : Int) (cs : List Char) : Option Int :=
  (readInt? cs).filter fun n => lo ≤ n ∧ n ≤ hi

end GrpcContract.Text
