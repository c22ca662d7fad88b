import GrpcContract.Text.Utf8
import GrpcContract.Message.ToTree

/-!
The binary form of messages. A message is a sequence of records, each with a field number and a
content; it is written in the order of the numbers. Reading goes in two steps: bytes to records,
and records into the message. Nested messages are bytes of a record, so how deeply they may nest
is the recursion's own measure.
-/

namespace GrpcContract

open Number

namespace Wire

/-- A number in groups of seven bits, the lowest first; every byte but the last has its high bit
set. -/
def varint (n : Nat) : List UInt8 :=
  if n < 128 then [UInt8.ofNat n] else UInt8.ofNat (n % 128 + 128) :: varint (n / 128)

/-- The `count` low bytes of a number, the lowest first. -/
def littleEndian : Nat → Nat → List UInt8
  | 0, _ => []
  | count + 1, n => UInt8.ofNat (n % 256) :: littleEndian count (n / 256)

/-- The number whose bytes are given, the lowest first. -/
def ofLittleEndian (bs : List UInt8) : Nat :=
  bs.foldr (fun b n => b.toNat + 256 * n) 0

/-- A signed number as an unsigned one: small absolute values stay small. -/
def zigzag (n : Int) : Nat :=
  if 0 ≤ n then (2 * n).toNat else (-2 * n - 1).toNat

def ofZigzag (n : Nat) : Int :=
  if n % 2 = 0 then (n / 2 : Nat) else -((n / 2 : Nat) : Int) - 1

/-- The number of a record's form. -/
inductive Form
  | varint | fixed64 | bytes | group | groupEnd | fixed32
deriving DecidableEq, Inhabited

def Form.code : Form → Nat
  | varint => 0
  | fixed64 => 1
  | bytes => 2
  | group => 3
  | groupEnd => 4
  | fixed32 => 5

def Form.ofCode? : Nat → Option Form
  | 0 => some varint
  | 1 => some fixed64
  | 2 => some bytes
  | 3 => some group
  | 4 => some groupEnd
  | 5 => some fixed32
  | _ => none

def tag (number : Nat) (form : Form) : List UInt8 :=
  varint (8 * number + form.code)

def delimited (bs : List UInt8) : List UInt8 :=
  varint bs.length ++ bs

def bytesRecord (number : Nat) (bs : List UInt8) : List UInt8 :=
  tag number .bytes ++ delimited bs

mutual
def valueRecord (number : Nat) : WireValue → List UInt8
  | .varint n => tag number .varint ++ varint n.toNat
  | .fixed64 n => tag number .fixed64 ++ littleEndian 8 n.toNat
  | .bytes bs => bytesRecord number bs
  | .group fields => tag number .group ++ groupRecords fields ++ tag number .groupEnd
  | .fixed32 n => tag number .fixed32 ++ littleEndian 4 n.toNat

def groupRecords : List (Nat × WireValue) → List UInt8
  | [] => []
  | (number, value) :: rest => valueRecord number value ++ groupRecords rest
end

/-- A varint of at most `count` bytes; the last of ten holds one bit. -/
def readVarint : Nat → List UInt8 → Option (Nat × List UInt8)
  | 0, _ | _, [] => none
  | count + 1, b :: rest =>
    if b < 128 then
      if count = 0 ∧ 1 < b then none else some (b.toNat, rest)
    else do
      let (n, rest) ← readVarint count rest
      return (b.toNat % 128 + 128 * n, rest)

def readNumber (bs : List UInt8) : Option (Nat × List UInt8) :=
  readVarint 10 bs

/-- Exactly `count` bytes. -/
def take? (count : Nat) (bs : List UInt8) : Option (List UInt8 × List UInt8) :=
  if count ≤ bs.length then some (bs.splitAt count) else none

def readDelimited (bs : List UInt8) : Option (List UInt8 × List UInt8) := do
  let (count, rest) ← readNumber bs
  take? count rest

/-- The start of a record. It fits 32 bits, and no field has the number zero. -/
def readTag (bs : List UInt8) : Option ((Nat × Form) × List UInt8) := do
  let (key, rest) ← readNumber bs
  guard (key < 0x100000000 ∧ 8 ≤ key)
  return ((key / 8, ← Form.ofCode? (key % 8)), rest)

mutual
/-- The content of a record whose start has been read; groups nest at most `depth` deep. -/
def readValue (fuel depth number : Nat) (form : Form) (bs : List UInt8) :
    Option (WireValue × List UInt8) :=
  match fuel, form with
  | 0, _ | _, .groupEnd => none
  | _ + 1, .varint => (readNumber bs).map fun (n, rest) => (.varint (UInt64.ofNat n), rest)
  | _ + 1, .fixed64 =>
    (take? 8 bs).map fun (w, rest) => (.fixed64 (UInt64.ofNat (ofLittleEndian w)), rest)
  | _ + 1, .bytes => (readDelimited bs).map fun (w, rest) => (.bytes w, rest)
  | _ + 1, .fixed32 =>
    (take? 4 bs).map fun (w, rest) => (.fixed32 (UInt32.ofNat (ofLittleEndian w)), rest)
  | fuel + 1, .group =>
    match depth with
    | 0 => none
    | depth + 1 => (readGroup fuel depth number bs).map fun (fields, rest) => (.group fields, rest)

def readGroup (fuel depth number : Nat) (bs : List UInt8) :
    Option (List (Nat × WireValue) × List UInt8) :=
  match fuel with
  | 0 => none
  | fuel + 1 => do
    let ((n, form), rest) ← readTag bs
    if form = .groupEnd then
      if n = number then return ([], rest) else none
    else
      let (value, rest) ← readValue fuel depth n form rest
      let (fields, rest) ← readGroup fuel depth number rest
      return ((n, value) :: fields, rest)
end

/-- The records of some bytes. The content of a number that `isBytes` names is bytes after their
length, whatever form its tag tells. Every record takes a byte, so the length is enough fuel. -/
def readRecords (isBytes : Nat → Bool) (depth : Nat) :
    Nat → List UInt8 → Option (List (Nat × WireValue))
  | _, [] => some []
  | 0, _ :: _ => none
  | fuel + 1, bs => do
    let ((number, told), rest) ← readTag bs
    let form := if isBytes number then .bytes else told
    let (value, rest) ← readValue (2 * rest.length + 1) depth number form rest
    return (number, value) :: (← readRecords isBytes depth fuel rest)

def records? (isBytes : Nat → Bool) (depth : Nat) (bs : List UInt8) :
    Option (List (Nat × WireValue)) :=
  readRecords isBytes depth bs.length bs

mutual
/-- How many levels it takes to skip a record: one, and those of what is in a group. -/
def skipLevels : WireValue → Nat
  | .group fields => skipAllLevels fields + 1
  | _ => 1

def skipAllLevels : List (Nat × WireValue) → Nat
  | [] => 0
  | (_, value) :: rest => max (skipLevels value) (skipAllLevels rest)
end

end Wire

namespace ScalarKind

open Wire

def form : ScalarKind → Form
  | double | fixed64 | sfixed64 => .fixed64
  | float | fixed32 | sfixed32 => .fixed32
  | string | bytes => .bytes
  | _ => .varint

def write (kind : ScalarKind) : Scalar → List UInt8
  | .bool b => varint (if b then 1 else 0)
  | .int32 n =>
    match kind with
    | sint32 => varint (zigzag n.toInt)
    | sfixed32 => littleEndian 4 n.toUInt32.toNat
    | _ => varint n.toInt64.toUInt64.toNat
  | .int64 n =>
    match kind with
    | sint64 => varint (zigzag n.toInt)
    | sfixed64 => littleEndian 8 n.toUInt64.toNat
    | _ => varint n.toUInt64.toNat
  | .uint32 n =>
    match kind with
    | fixed32 => littleEndian 4 n.toNat
    | _ => varint n.toNat
  | .uint64 n =>
    match kind with
    | fixed64 => littleEndian 8 n.toNat
    | _ => varint n.toNat
  | .float x => littleEndian 4 x.bits.toNat
  | .double x => littleEndian 8 x.bits.toNat
  | .string s => delimited (Text.Utf8.encode s.toList)
  | .bytes bs => delimited bs
  | .enum n => varint n.toInt64.toUInt64.toNat

/-- The value of the kind that a record holds; what does not fit is cut to its low bits. -/
def ofWire? (kind : ScalarKind) (w : WireValue) : Option Scalar :=
  match kind, w with
  | double, .fixed64 n => some (.double ⟨n⟩)
  | float, .fixed32 n => some (.float ⟨n⟩)
  | int32, .varint n => some (.int32 n.toUInt32.toInt32)
  | int64, .varint n => some (.int64 n.toInt64)
  | uint32, .varint n => some (.uint32 n.toUInt32)
  | uint64, .varint n => some (.uint64 n)
  | sint32, .varint n => some (.int32 (Int32.ofInt (ofZigzag n.toUInt32.toNat)))
  | sint64, .varint n => some (.int64 (Int64.ofInt (ofZigzag n.toNat)))
  | fixed32, .fixed32 n => some (.uint32 n)
  | fixed64, .fixed64 n => some (.uint64 n)
  | sfixed32, .fixed32 n => some (.int32 n.toInt32)
  | sfixed64, .fixed64 n => some (.int64 n.toInt64)
  | bool, .varint n => some (.bool (n != 0))
  | string, .bytes bs => (Text.Utf8.decode? bs).map fun cs => .string (String.ofList cs)
  | bytes, .bytes bs => some (.bytes bs)
  | _, _ => none

end ScalarKind

namespace FieldType

open Wire

def form : FieldType → Form
  | scalar kind => kind.form
  | enum _ => .varint
  | message _ => .bytes

def writeScalar (type : FieldType) (x : Scalar) : List UInt8 :=
  match type with
  | scalar kind => kind.write x
  | _ => ScalarKind.int32.write x

def ofWire? (type : FieldType) (w : WireValue) : Option Scalar :=
  match type with
  | scalar kind => kind.ofWire? w
  | enum _ =>
    match w with
    | .varint n => some (.enum n.toUInt32.toInt32)
    | _ => none
  | message _ => none

def readPacked (type : FieldType) : Nat → List UInt8 → Option (List Scalar)
  | _, [] => some []
  | 0, _ :: _ => none
  | fuel + 1, bs => do
    let (w, rest) ← readValue 1 0 0 type.form bs
    return (← type.ofWire? w) :: (← readPacked type fuel rest)

end FieldType

mutual
/-- The content of a record that holds one value, after its length for a message. -/
def Value.write (s : Schema) (type : FieldType) : Value → List UInt8
  | .scalar x => type.writeScalar x
  | .message m => Wire.delimited (m.write s (type.target s))

def FieldValue.write (s : Schema) (f : Field) : FieldValue → List UInt8
  | .single v => Wire.tag f.number f.shape.valueType.form ++ v.write s f.shape.valueType
  | .list vs =>
    match f.shape with
    | .repeated type true => Wire.bytesRecord f.number (writeList s type vs).flatten
    | shape =>
      (writeList s shape.valueType vs).flatMap fun content =>
        Wire.tag f.number shape.valueType.form ++ content
  | .map entries =>
    match f.shape with
    | .map key value => (writeEntries s key value entries).flatMap (Wire.bytesRecord f.number)
    | _ => []

def Message.write (s : Schema) (t : MessageType) : Message → List UInt8
  | .mk fields unknown =>
    let known := writeFields s t fields
    let other := unknown.map fun (n, w) => (n, Wire.valueRecord n w)
    ((known ++ other).mergeSort fun a b => a.1 ≤ b.1).flatMap (·.2)

def writeList (s : Schema) (type : FieldType) : List Value → List (List UInt8)
  | [] => []
  | v :: rest => v.write s type :: writeList s type rest

/-- Entries as messages of two fields; a scalar that is zero is left out. -/
def writeEntries (s : Schema) (key : ScalarKind) (type : FieldType) :
    List (MapKey × Value) → List (List UInt8)
  | [] => []
  | (k, v) :: rest =>
    let keyPart := if k.toScalar.isZero then [] else Wire.tag 1 key.form ++ key.write k.toScalar
    let isZero := match v with
      | .scalar x => x.isZero
      | .message _ => false
    let valuePart := if isZero then [] else Wire.tag 2 type.form ++ v.write s type
    (keyPart ++ valuePart) :: writeEntries s key type rest

/-- The records of the fields that are set, each with its number. -/
def writeFields (s : Schema) (t : MessageType) :
    List (Nat × FieldValue) → List (Nat × List UInt8)
  | [] => []
  | (n, v) :: rest =>
    match t.field? n with
    | some f =>
      if f.holds v then (n, v.write s f) :: writeFields s t rest else writeFields s t rest
    | none => writeFields s t rest
end

/-- Reads bytes on top of a message of some type; a reader for what nests one level deeper. -/
abbrev MergeBytes := MessageType → Message → List UInt8 → Option Message

/-- One value of a record, on top of what is there. -/
def Value.merge (nested : MergeBytes) (s : Schema) (type : FieldType) (old? : Option Value)
    (w : WireValue) : Option Value :=
  match type with
  | .message name =>
    match w with
    | .bytes bs =>
      let old := match old? with
        | some (.message m) => m
        | _ => .empty
      (nested (s.messageType name) old bs).map .message
    | _ => none
  | type => (type.ofWire? w).map .scalar

def FieldType.readItems (nested : MergeBytes) (s : Schema) (type : FieldType) (w : WireValue) :
    Option (List Value) :=
  match w with
  | .bytes bs =>
    if type.form = .bytes then (Value.merge nested s type none w).map ([·])
    else (type.readPacked bs.length bs).map fun xs => xs.map .scalar
  | w => (Value.merge nested s type none w).map ([·])

/-- The entry that records give, where `key` and `value` are what came before. Other records are
skipped, for which `depth` levels are left. -/
def readEntry (nested : MergeBytes) (s : Schema) (depth : Nat) (keyKind : ScalarKind)
    (type : FieldType) (key : Scalar) (value : Value) :
    List (Nat × WireValue) → Option (Scalar × Value)
  | [] => some (key, value)
  | (1, w) :: rest => do
    readEntry nested s depth keyKind type (← keyKind.ofWire? w) value rest
  | (2, w) :: rest => do
    readEntry nested s depth keyKind type key (← Value.merge nested s type (some value) w) rest
  | (_, w) :: rest =>
    if Wire.skipLevels w ≤ depth then readEntry nested s depth keyKind type key value rest
    else none

def FieldType.entryDefault (type : FieldType) : Value :=
  (type.zero?.map .scalar).getD (.message .empty)

/-- What a record gives to a field, on top of what the field has. -/
def Field.merge (nested : MergeBytes) (s : Schema) (depth : Nat) (f : Field)
    (old? : Option FieldValue) (w : WireValue) : Option FieldValue :=
  match f.shape with
  | .single type _ _ =>
    let oldValue? := match old? with
      | some (.single v) => some v
      | _ => none
    (Value.merge nested s type oldValue? w).map .single
  | .repeated type _ => do
    let old := match old? with
      | some (.list vs) => vs
      | _ => []
    return .list (old ++ (← type.readItems nested s w))
  | .map keyKind type =>
    match w with
    | .bytes bs => do
      let old := match old? with
        | some (.map entries) => entries
        | _ => []
      let records ← Wire.records? (fun _ => false) depth bs
      let (key, value) ←
        readEntry nested s depth keyKind type keyKind.zero type.entryDefault records
      return .map (insertEntry (← key.toMapKey?) value old)
    | _ => none

/-- Whether a number is that of a map field. What a record gives to such a field is always read as
bytes after their length. -/
def MessageType.isMapNumber (t : MessageType) (number : Nat) : Bool :=
  match t.field? number with
  | some f =>
    match f.shape with
    | .map .. => true
    | _ => false
  | none => false

def Message.mergeRecord (nested : MergeBytes) (s : Schema) (depth : Nat) (t : MessageType)
    (m : Message) (record : Nat × WireValue) : Option Message :=
  match t.field? record.1 with
  | none => some (m.addUnknown record.1 record.2)
  | some f => (f.merge nested s depth (m.get? f.number) record.2).map (m.set t f)

/-- Reads the binary form of a message on top of a message. The message and those in it are at
most `levels` deep. -/
def Message.mergeBytes (s : Schema) : Nat → MergeBytes
  | 0, _, _, _ => none
  | levels + 1, t, m, bs => do
    (← Wire.records? t.isMapNumber levels bs).foldlM
      (mergeRecord (mergeBytes s levels) s levels t) m

/-- How many levels of messages the binary form may have, the message itself included. -/
def Message.maxLevels : Nat := 101

def Message.read? (s : Schema) (t : MessageType) (bs : List UInt8) : Option Message :=
  Message.mergeBytes s Message.maxLevels t .empty bs

end GrpcContract
