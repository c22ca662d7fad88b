import GrpcContract.Number.Literal

/-!
JSON values. Object members keep their order and may repeat; `Json.sorted` is the view in which
an object is a finite map ordered by key. A spelling that is well formed but holds nothing a value
can be made of is `unreadable`: a number out of range, a text with a lone surrogate, or what is
nested too deeply.
-/

namespace GrpcContract

open Number

inductive Json.Number
  /-- An integer of at most 64 bits, signed or unsigned. -/
  | int (n : Int)
  /-- Any other number; it is finite. -/
  | float (x : Binary64)
deriving DecidableEq, Inhabited

inductive Json
  | null
  | bool (b : Bool)
  | number (n : Json.Number)
  | string (s : String)
  | array (items : List Json)
  | object (members : List (String × Json))
  | unreadable
deriving Inhabited

namespace Json

/-- The number that a literal stands for: an integer if it is written as one and fits 64 bits,
and else a floating-point number. A negative zero is no integer. -/
def Number.ofLiteral? (l : Literal) : Option Json.Number :=
  if l.isInteger then
    let n := Text.natOfDigits l.whole
    if l.negative && 0 < n && n ≤ 0x8000000000000000 then some (.int (-(n : Int)))
    else if !l.negative && n < 0x10000000000000000 then some (.int n)
    else l.scale?.map .float
  else l.scale?.map .float

/-- Puts a member in its place among members ordered by key, or replaces the one with its key. -/
def insertMember (key : String) (value : α) : List (String × α) → List (String × α)
  | [] => [(key, value)]
  | (k, v) :: rest =>
    if key < k then (key, value) :: (k, v) :: rest
    else if key = k then (key, value) :: rest
    else (k, v) :: insertMember key value rest

/-- Members ordered by key; of members with one key the last stays. -/
def sortMembers (members : List (String × α)) : List (String × α) :=
  members.foldl (fun sorted (k, v) => insertMember k v sorted) []

mutual
/-- The value with every object ordered by key, the last of several equal keys staying. -/
def sorted : Json → Json
  | array items => array (sortedItems items)
  | object members => object (sortMembers (sortedMembers members))
  | value => value

def sortedItems : List Json → List Json
  | [] => []
  | value :: rest => sorted value :: sortedItems rest

def sortedMembers : List (String × Json) → List (String × Json)
  | [] => []
  | (key, value) :: rest => (key, sorted value) :: sortedMembers rest
end

mutual
/-- Whether every part of the value is readable. -/
def isReadable : Json → Bool
  | array items => allReadable items
  | object members => membersReadable members
  | unreadable => false
  | _ => true

def allReadable : List Json → Bool
  | [] => true
  | value :: rest => isReadable value && allReadable rest

def membersReadable : List (String × Json) → Bool
  | [] => true
  | (_, value) :: rest => isReadable value && membersReadable rest
end

mutual
/-- The value with what nests more than `n` arrays and objects deep made unreadable. -/
def limitDepth : Nat → Json → Json
  | 0, array _ | 0, object _ => unreadable
  | n + 1, array items => array (limitItems n items)
  | n + 1, object members => object (limitMembers n members)
  | _, value => value

def limitItems (n : Nat) : List Json → List Json
  | [] => []
  | value :: rest => limitDepth n value :: limitItems n rest

def limitMembers (n : Nat) : List (String × Json) → List (String × Json)
  | [] => []
  | (key, value) :: rest => (key, limitDepth n value) :: limitMembers n rest
end

def member? (members : List (String × Json)) (key : String) : Option Json :=
  (members.reverse.find? (·.1 == key)).map (·.2)

/-- The value of a member; what has no such member reads as null. -/
def field (key : String) : Json → Json
  | object members => (member? members key).getD null
  | _ => null

/-- The items of an array; what is no array has none. -/
def items : Json → List Json
  | array items => items
  | _ => []

/-- The integer that a value is, if it fits 64 signed bits. -/
def int64? : Json → Option Int
  | number (.int n) => if -0x8000000000000000 ≤ n && n < 0x8000000000000000 then some n else none
  | _ => none

end Json

end GrpcContract
