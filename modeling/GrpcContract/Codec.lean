import GrpcContract.Json.Parser
import GrpcContract.Message.OfJson
import GrpcContract.Message.ToTree
import GrpcContract.Status.Failure
import GrpcContract.Text.Blank

/-!
Messages as texts. Text is read with or without leniency about what the schema does not declare;
every message has one tree, whose text can be read again.
-/

namespace GrpcContract

/-- A reader and writer of messages of one schema. -/
structure Codec where
  schema : Schema
  options : CodecOptions := {}
deriving Inhabited

def Failure.invalidMessage (t : MessageType) (why : JsonMismatch) : Failure :=
  .parse s!"invalid {t.name} message: {why.message}"

namespace Codec

def decodeJson (c : Codec) (t : MessageType) (j : Json) : Except Failure Message :=
  (Message.ofJson c.options c.schema t j).mapError (Failure.invalidMessage t)

/-- The message that a text means. Members that are skipped need only be well formed. -/
def decode (c : Codec) (t : MessageType) (text : String) : Except Failure Message :=
  match Json.parse? text with
  | some j => c.decodeJson t j
  | none => .error (.invalidMessage t .malformed)

/-- The message that a text means, by way of its JSON value. -/
def decodeSorted (c : Codec) (t : MessageType) (text : String) : Except Failure Message :=
  match Json.parseSorted? text with
  | some j => c.decodeJson t j
  | none => .error (.invalidMessage t .malformed)

/-- The value that the client sends, where an item tells it apart from what the server sends. -/
def clientSide : Json → Json
  | .object members =>
    if members.length == 3 && (Json.member? members "serverValue").isSome &&
        (match Json.member? members "singleValue" with
          | some (.bool true) => true
          | _ => false) then
      (Json.member? members "clientValue").getD (.object members)
    else .object members
  | j => j

/-- The messages that a text means: those of an array, the one of an object, or none where
nothing is written. -/
def decodeMany (c : Codec) (t : MessageType) (text : String) : Except Failure (List Message) :=
  if Text.trim text.toList = [] then .ok []
  else
    match Json.parseSorted? text with
    | none => .error (.invalidMessage t .malformed)
    | some (.array items) => items.mapM fun item => c.decodeJson t (clientSide item)
    | some (.object members) => do return [← c.decodeJson t (.object members)]
    | some other => .error (.parse
        s!"expected a JSON object or array of {t.name} messages, got {other.render}")

def encode (c : Codec) (t : MessageType) (m : Message) : Tree :=
  m.toTree c.schema t

def encodeMany (c : Codec) (t : MessageType) (ms : List Message) : Tree :=
  .list (ms.map (c.encode t))

def fieldTitle (t : MessageType) (f : Field) : String :=
  t.name ++ "." ++ f.name

def listField (c : Codec) (t : MessageType) (m : Message) (f : Field) :
    Except Failure (List Tree) :=
  match f.shape, m.get f with
  | .repeated type _, .list vs => .ok (listTrees c.schema type vs)
  | .repeated .., _ => .ok []
  | _, _ => .error (.argument s!"{fieldTitle t f} is not a repeated non-map field")

/-- The entries of a map field, ordered by key. -/
def mapField (c : Codec) (t : MessageType) (m : Message) (f : Field) :
    Except Failure (List (Leaf × Tree)) :=
  match f.shape, m.get f with
  | .map _ type, .map entries =>
    .ok ((entryTrees c.schema type entries).mergeSort fun a b => a.1.keyLe b.1)
  | .map .., _ => .ok []
  | _, _ => .error (.argument s!"{fieldTitle t f} is not a map field")

end Codec

end GrpcContract
