import GrpcContract.Text.Base64
import GrpcContract.Json.Basic
import GrpcContract.Message.Basic

/-!
Messages read from JSON. A member's key is a JSON name or a declared name, null means that the
field is not given, and what is not declared is refused or skipped. Of members for one field the
last counts, but of the members of a group only one may be given.
-/

namespace GrpcContract

open Number

/-- What a reader does with what the schema does not declare. -/
structure CodecOptions where
  ignoreUnknown : Bool := false
deriving DecidableEq, Inhabited

/-- Why a JSON value is no message of a type. -/
inductive JsonMismatch
  | malformed
  | unknownField (key : String)
  | unknownSymbol (name : String)
  | secondMember (group : String)
  | expected (what : String)
deriving DecidableEq, Inhabited

def JsonMismatch.message : JsonMismatch → String
  | malformed => "the text is not well formed"
  | unknownField key => s!"there is no field {key}"
  | unknownSymbol name => s!"there is no enumeration value {name}"
  | secondMember group => s!"a member of {group} is given already"
  | expected what => s!"expected {what}"

def JsonMismatch.orExpected (what : String) : Option α → Except JsonMismatch α
  | some a => .ok a
  | none => .error (.expected what)

namespace Json

/-- The integer nearest to `n` among 64-bit floating-point numbers. -/
def floatBound (n : Int) : Int :=
  (Binary64.ofInt n).toInt?.getD n

/-- An integer between two bounds, from a JSON value. A floating-point number has to be whole; the
bounds are rounded before it is compared with them, and what then lies beyond them is set to them. -/
def toIntIn? (readText? : List Char → Option Int) (lo hi : Int) : Json → Option Int
  | number (.int n) => if lo ≤ n ∧ n ≤ hi then some n else none
  | number (.float x) => do
    let n ← x.toInt?
    if floatBound lo ≤ n ∧ n ≤ floatBound hi then some (max lo (min hi n)) else none
  | string s => (readText? s.toList).filter fun n => lo ≤ n ∧ n ≤ hi
  | _ => none

/-- A signed integer of `bits` bits. -/
def toSigned? (bits : Nat) (j : Json) : Option Int :=
  let bound : Int := Nat.pow 2 (bits - 1)
  j.toIntIn? Text.readInt? (-bound) (bound - 1)

/-- An unsigned integer of `bits` bits. -/
def toUnsigned? (bits : Nat) (j : Json) : Option Nat :=
  let bound : Int := Nat.pow 2 bits
  (j.toIntIn? (fun cs => (Text.readNat? cs).map Int.ofNat) 0 (bound - 1)).map Int.toNat

/-- The magnitude of the greatest finite 32-bit number, as a 64-bit one. -/
def greatestSingle : Nat :=
  (Binary32.ofParts false (BinaryFormat.single.infinity - 1)).toBinary64.magnitude

def toFloat? : Json → Option Binary32
  | number (.int n) => some (Binary32.ofRatio (n < 0) n.natAbs 1)
  | number (.float x) => if x.magnitude ≤ greatestSingle then some x.toBinary32 else none
  | string s => Binary32.ofText? s
  | _ => none

def toDouble? : Json → Option Binary64
  | number (.int n) => some (Binary64.ofInt n)
  | number (.float x) => some x
  | string s => Binary64.ofText? s
  | _ => none

def toBool? : Json → Option Bool
  | bool b => some b
  | _ => none

def toString? : Json → Option String
  | string s => some s
  | _ => none

def toBytes? : Json → Option (List UInt8)
  | string s => Text.Base64.decode? s.toList
  | _ => none

end Json

namespace ScalarKind

def title : ScalarKind → String
  | bool => "true or false"
  | string => "a string"
  | bytes => "a base64 string"
  | double | float => "a number"
  | _ => "an integer in range"

def ofJson? (kind : ScalarKind) (j : Json) : Option Scalar :=
  match kind with
  | double => j.toDouble?.map .double
  | float => j.toFloat?.map .float
  | int32 | sint32 | sfixed32 => (j.toSigned? 32).map fun n => .int32 (Int32.ofInt n)
  | int64 | sint64 | sfixed64 => (j.toSigned? 64).map fun n => .int64 (Int64.ofInt n)
  | uint32 | fixed32 => (j.toUnsigned? 32).map fun n => .uint32 (UInt32.ofNat n)
  | uint64 | fixed64 => (j.toUnsigned? 64).map fun n => .uint64 (UInt64.ofNat n)
  | bool => j.toBool?.map .bool
  | string => j.toString?.map .string
  | bytes => j.toBytes?.map .bytes

def keyOfText? (kind : ScalarKind) (key : String) : Option MapKey :=
  match kind with
  | bool => if key = "true" then some (.bool true) else if key = "false" then some (.bool false)
    else none
  | string => some (.string key)
  | double | float | bytes => none
  | kind => (kind.ofJson? (.string key)).bind Scalar.toMapKey?

end ScalarKind

/-- The number that a JSON value means in an enumeration, or none where it may be skipped. -/
def EnumType.ofJson (o : CodecOptions) (e : EnumType) : Json → Except JsonMismatch (Option Int32)
  | .string name =>
    match e.numberOf? name with
    | some number => .ok (some number)
    | none => if o.ignoreUnknown then .ok none else .error (.unknownSymbol name)
  | .number (.int n) =>
    if -0x80000000 ≤ n ∧ n < 0x80000000 then .ok (some (Int32.ofInt n))
    else .error (.expected "an enumeration number in range")
  | _ => .error (.expected "an enumeration value")

def Message.groupTaken (m : Message) (t : MessageType) (f : Field) : Bool :=
  f.oneof?.isSome && t.fields.any fun g => g.oneof? == f.oneof? && m.has g

/-- Sets a field from what was read for it; nothing may have been. -/
def Message.give (m : Message) (t : MessageType) (f : Field) :
    Option FieldValue → Except JsonMismatch Message
  | none => .ok m
  | some v =>
    if m.groupTaken t f then .error (.secondMember (f.oneof?.getD "")) else .ok (m.set t f v)

/-- A value that is no message; none where it may be skipped. -/
def leafOfJson (o : CodecOptions) (type : FieldType) (j : Json) :
    Except JsonMismatch (Option Value) :=
  match type with
  | .scalar kind =>
    (JsonMismatch.orExpected kind.title (kind.ofJson? j)).map fun x => some (.scalar x)
  | .enum e => (e.ofJson o j).map fun number? => number?.map fun n => .scalar (.enum n)
  | .message _ => .error (.expected "an object")

mutual
/-- One value of a field; none where it may be skipped. -/
def valueOfJson (o : CodecOptions) (s : Schema) (type : FieldType) :
    Json → Except JsonMismatch (Option Value)
  | .object members =>
    match type with
    | .message name =>
      (membersOfJson o s (s.messageType name) .empty members).map fun m => some (.message m)
    | type => leafOfJson o type (.object members)
  | j => leafOfJson o type j

/-- What a member gives to a field; null gives nothing. -/
def fieldOfJson (o : CodecOptions) (s : Schema) (shape : Shape) :
    Json → Except JsonMismatch (Option FieldValue)
  | .null => .ok none
  | .object members =>
    match shape with
    | .single (.message name) _ _ =>
      (membersOfJson o s (s.messageType name) .empty members).map fun m =>
        some (.single (.message m))
    | .map key value =>
      (entriesOfJson o s key value [] members).map fun entries => some (.map entries)
    | .single type _ _ => (leafOfJson o type (.object members)).map fun v? => v?.map .single
    | .repeated .. => .error (.expected "an array")
  | .array items =>
    match shape with
    | .repeated type _ => (itemsOfJson o s type items).map fun vs => some (.list vs)
    | .single type _ _ => (leafOfJson o type (.array items)).map fun v? => v?.map .single
    | .map .. => .error (.expected "an object")
  | j =>
    match shape with
    | .single type _ _ => (leafOfJson o type j).map fun v? => v?.map .single
    | .repeated .. => .error (.expected "an array")
    | .map .. => .error (.expected "an object")

/-- The fields that members give, on top of a message. -/
def membersOfJson (o : CodecOptions) (s : Schema) (t : MessageType) (m : Message) :
    List (String × Json) → Except JsonMismatch Message
  | [] => .ok m
  | (key, j) :: rest =>
    match t.keyed? key with
    | none =>
      if o.ignoreUnknown then membersOfJson o s t m rest else .error (.unknownField key)
    | some f => do
      let m ← m.give t f (← fieldOfJson o s f.shape j)
      membersOfJson o s t m rest

def itemsOfJson (o : CodecOptions) (s : Schema) (type : FieldType) :
    List Json → Except JsonMismatch (List Value)
  | [] => .ok []
  | j :: rest => do
    let v? ← valueOfJson o s type j
    return v?.toList ++ (← itemsOfJson o s type rest)

/-- The entries that members give, on top of some entries. -/
def entriesOfJson (o : CodecOptions) (s : Schema) (key : ScalarKind) (value : FieldType)
    (entries : List (MapKey × Value)) :
    List (String × Json) → Except JsonMismatch (List (MapKey × Value))
  | [] => .ok entries
  | (text, j) :: rest => do
    let k ← JsonMismatch.orExpected "a map key" (key.keyOfText? text)
    let v? ← valueOfJson o s value j
    entriesOfJson o s key value (v?.elim entries fun v => insertEntry k v entries) rest
end

def Message.ofJson (o : CodecOptions) (s : Schema) (t : MessageType) :
    Json → Except JsonMismatch Message
  | .object members => membersOfJson o s t .empty members
  | _ => .error (.expected "an object")

end GrpcContract
