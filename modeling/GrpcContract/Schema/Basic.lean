import GrpcContract.Message.Scalar

/-!
Schemas: message types with their fields, enumerations, and services with their methods.
A message type refers to others by name, so types may be recursive.
-/

namespace GrpcContract

/-- The kinds of scalar fields; those that hold the same values differ in their wire form. -/
inductive ScalarKind
  | double | float
  | int32 | int64 | uint32 | uint64 | sint32 | sint64
  | fixed32 | fixed64 | sfixed32 | sfixed64
  | bool | string | bytes
deriving DecidableEq, Inhabited

/-- The value of a kind that a field without presence has when nothing is given. -/
def ScalarKind.zero : ScalarKind → Scalar
  | double => .double ⟨0⟩
  | float => .float ⟨0⟩
  | int32 | sint32 | sfixed32 => .int32 0
  | int64 | sint64 | sfixed64 => .int64 0
  | uint32 | fixed32 => .uint32 0
  | uint64 | fixed64 => .uint64 0
  | bool => .bool false
  | string => .string ""
  | bytes => .bytes []

/-- An enumeration, its values in the order of their declaration. -/
structure EnumType where
  name : String
  values : List (String × Int32)
deriving DecidableEq, Inhabited

namespace EnumType

def nameOf? (e : EnumType) (number : Int32) : Option String :=
  (e.values.find? (·.2 == number)).map (·.1)

def numberOf? (e : EnumType) (name : String) : Option Int32 :=
  (e.values.find? (·.1 == name)).map (·.2)

/-- The number of the first declared value. -/
def first (e : EnumType) : Int32 :=
  (e.values.head?.map (·.2)).getD 0

end EnumType

/-- The type of one value of a field. -/
inductive FieldType
  | scalar (kind : ScalarKind)
  | enum (type : EnumType)
  | message (type : String)
deriving DecidableEq, Inhabited

/-- How it is told that a single field is set. -/
inductive Presence
  /-- The field is set when its value is not the default. -/
  | implicit
  /-- Setting the field is recorded. -/
  | explicit
  /-- Setting the field is recorded, and no other member of the group is set with it. -/
  | oneof (group : String)
deriving DecidableEq, Inhabited

/-- How many values a field has. -/
inductive Shape
  /-- One value, with the default that is declared for it. -/
  | single (type : FieldType) (presence : Presence) (default? : Option Scalar)
  /-- Any number of values; scalars may share one packed record. -/
  | repeated (type : FieldType) (packed : Bool)
  | map (key : ScalarKind) (value : FieldType)
deriving DecidableEq, Inhabited

structure Field where
  name : String
  number : Nat
  jsonName : String
  shape : Shape
deriving DecidableEq, Inhabited

/-- The JSON name of a field that declares none: underscores are left out and the letter after
each becomes upper-case. -/
def jsonNameOf (name : String) : String :=
  String.ofList (go false name.toList)
where
  go (raise : Bool) : List Char → List Char
    | [] => []
    | '_' :: cs => go true cs
    | c :: cs => (if raise then c.toUpper else c) :: go false cs

namespace Field

def oneof? (f : Field) : Option String :=
  match f.shape with
  | .single _ (.oneof group) _ => some group
  | _ => none

end Field

def FieldType.zero? : FieldType → Option Scalar
  | .scalar kind => some kind.zero
  | .enum type => some (.enum type.first)
  | .message _ => none

/-- A message type, its fields in the order of their declaration. -/
structure MessageType where
  name : String
  fields : List Field
deriving DecidableEq, Inhabited

namespace MessageType

def ordered (t : MessageType) : List Field :=
  t.fields.mergeSort fun f g => f.number ≤ g.number

def field? (t : MessageType) (number : Nat) : Option Field :=
  t.fields.find? (·.number == number)

def named? (t : MessageType) (name : String) : Option Field :=
  t.fields.find? (·.name == name)

/-- The field that a JSON key means: JSON names come before declared names. -/
def keyed? (t : MessageType) (key : String) : Option Field :=
  t.fields.find? (·.jsonName == key) <|> t.named? key

end MessageType

structure Method where
  service : String
  name : String
  input : String
  output : String
  clientStreaming : Bool
  serverStreaming : Bool
deriving DecidableEq, Inhabited

structure Service where
  name : String
  methods : List Method
deriving DecidableEq, Inhabited

structure Schema where
  messages : List MessageType
  services : List Service
deriving DecidableEq, Inhabited

namespace Schema

def empty : Schema := ⟨[], []⟩

def messageType? (s : Schema) (name : String) : Option MessageType :=
  s.messages.find? (·.name == name)

/-- The message type of a name; a name without a declaration is a type without fields. -/
def messageType (s : Schema) (name : String) : MessageType :=
  (s.messageType? name).getD ⟨name, []⟩

def bareName (name : String) : String :=
  match name.toList with
  | '.' :: rest => String.ofList rest
  | _ => name

def service? (s : Schema) (name : String) : Option Service :=
  s.services.find? (·.name == bareName name)

def append (s t : Schema) : Schema :=
  ⟨s.messages ++ t.messages, s.services ++ t.services⟩

end Schema

end GrpcContract
