import GrpcContract.Schema.Basic

/-!
Messages as finite data. A message holds the fields that were given a value, ordered by number,
and the fields its type does not declare. What a field without a value reads as, and whether a
field counts as set, is decided by its declaration.
-/

namespace GrpcContract

/-- The content of a field that is not declared, as the wire tells it. -/
inductive WireValue
  | varint (n : UInt64)
  | fixed64 (n : UInt64)
  | bytes (bs : List UInt8)
  | group (fields : List (Nat × WireValue))
  | fixed32 (n : UInt32)
deriving Inhabited

mutual
inductive Value
  | scalar (s : Scalar)
  | message (m : Message)

inductive FieldValue
  | single (v : Value)
  | list (vs : List Value)
  | map (entries : List (MapKey × Value))

inductive Message
  | mk (fields : List (Nat × FieldValue)) (unknown : List (Nat × WireValue))
end

instance : Inhabited Message := ⟨.mk [] []⟩

instance : Inhabited Value := ⟨.message default⟩

instance : Inhabited FieldValue := ⟨.list []⟩

/-- Puts an entry in its place among entries ordered by number, or replaces the one there. -/
def insertNumbered (number : Nat) (value : α) : List (Nat × α) → List (Nat × α)
  | [] => [(number, value)]
  | (n, v) :: rest =>
    if number < n then (number, value) :: (n, v) :: rest
    else if number = n then (number, value) :: rest
    else (n, v) :: insertNumbered number value rest

namespace Message

def empty : Message := .mk [] []

/-- The fields that were given a value, ordered by number. -/
def fields : Message → List (Nat × FieldValue)
  | .mk fields _ => fields

/-- The fields that are not declared, in the order of their arrival. -/
def unknown : Message → List (Nat × WireValue)
  | .mk _ unknown => unknown

def get? (m : Message) (number : Nat) : Option FieldValue :=
  m.fields.lookup number

def without (m : Message) (drop : Nat → Bool) : Message :=
  .mk (m.fields.filter fun (n, _) => !drop n) m.unknown

/-- The message with a field's value, and no other field touched. -/
def put (m : Message) (number : Nat) (value : FieldValue) : Message :=
  .mk (insertNumbered number value m.fields) m.unknown

def addUnknown (m : Message) (number : Nat) (value : WireValue) : Message :=
  .mk m.fields (m.unknown ++ [(number, value)])

/-- The message in which no other member of the field's group is set. -/
def clearGroup (m : Message) (t : MessageType) (f : Field) : Message :=
  match f.oneof? with
  | none => m
  | some group => m.without fun n =>
    t.fields.any fun g => g.number == n && n != f.number && g.oneof? == some group

/-- The message with a field set; the other members of its group are not set any more. -/
def set (m : Message) (t : MessageType) (f : Field) (value : FieldValue) : Message :=
  (m.clearGroup t f).put f.number value

end Message

/-- Whether a stored value counts as set. -/
def Field.holds (f : Field) : FieldValue → Bool
  | .single (.scalar s) =>
    match f.shape with
    | .single _ .implicit _ => !s.isZero
    | _ => true
  | .single (.message _) => true
  | .list vs => !vs.isEmpty
  | .map entries => !entries.isEmpty

def Message.has (m : Message) (f : Field) : Bool :=
  (m.get? f.number).any f.holds

def Field.default (f : Field) : FieldValue :=
  match f.shape with
  | .single type _ default? =>
    match default? <|> type.zero? with
    | some s => .single (.scalar s)
    | none => .single (.message .empty)
  | .repeated .. => .list []
  | .map .. => .map []

def Message.get (m : Message) (f : Field) : FieldValue :=
  (m.get? f.number).getD f.default

mutual
/-- Whether the message holds, at any depth, a map of two or more entries. The wire form of such
a message is one of several, since the order of entries is of no account. -/
def Message.hasWideMap : Message → Bool
  | .mk fields _ => fieldsHaveWideMap fields

def fieldsHaveWideMap : List (Nat × FieldValue) → Bool
  | [] => false
  | (_, v) :: rest => v.hasWideMap || fieldsHaveWideMap rest

def FieldValue.hasWideMap : FieldValue → Bool
  | .single v => v.hasWideMap
  | .list vs => valuesHaveWideMap vs
  | .map entries => 1 < entries.length || entriesHaveWideMap entries

def valuesHaveWideMap : List Value → Bool
  | [] => false
  | v :: rest => v.hasWideMap || valuesHaveWideMap rest

def entriesHaveWideMap : List (MapKey × Value) → Bool
  | [] => false
  | (_, v) :: rest => v.hasWideMap || entriesHaveWideMap rest

def Value.hasWideMap : Value → Bool
  | .scalar _ => false
  | .message m => m.hasWideMap
end

def insertEntry (key : MapKey) (value : Value) : List (MapKey × Value) → List (MapKey × Value)
  | [] => [(key, value)]
  | (k, v) :: rest => if k = key then (key, value) :: rest else (k, v) :: insertEntry key value rest

end GrpcContract
