import GrpcContract.Schema.Basic

/-!
Short forms for writing schemas down.
-/

namespace GrpcContract

def Field.declare (name : String) (number : Nat) (shape : Shape) : Field :=
  ⟨name, number, jsonNameOf name, shape⟩

namespace Shape

/-- One scalar or enumeration value without presence, or one message. -/
def one : FieldType → Shape
  | .message type => .single (.message type) .explicit none
  | type => .single type .implicit none

/-- One value with presence; it forms a group of its own under the given name. -/
def optional (group : String) (type : FieldType) : Shape :=
  .single type (.oneof group) none

def member (group : String) (type : FieldType) : Shape :=
  .single type (.oneof group) none

/-- Any number of values, packed where their type allows it. -/
def many : FieldType → Shape
  | .scalar .string => .repeated (.scalar .string) false
  | .scalar .bytes => .repeated (.scalar .bytes) false
  | .message type => .repeated (.message type) false
  | type => .repeated type true

end Shape

/-- A method of a service, from stream to stream as the two flags say. -/
def Service.declare (name : String) (methods : List (String × Bool × String × Bool × String)) :
    Service :=
  { name
    methods := methods.map fun (method, clientStreaming, input, serverStreaming, output) =>
      { service := name, name := method, input, output, clientStreaming, serverStreaming } }

end GrpcContract
