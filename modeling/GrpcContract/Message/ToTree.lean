import GrpcContract.Message.Basic
import GrpcContract.Message.Tree

/-!
The tree of a message. Every declared field appears once, by number, under its declared name,
apart from group members that are not set. A single message that is not set appears as its default
instance, in which such messages in turn appear without fields; so trees of recursive types end.
-/

namespace GrpcContract

def FieldType.target (s : Schema) : FieldType → MessageType
  | .message type => s.messageType type
  | _ => ⟨"", []⟩

def FieldType.leaf (type : FieldType) (s : Scalar) : Leaf :=
  match type, s with
  | .enum e, .enum number => ((e.nameOf? number).map (.symbol number)).getD (.scalar s)
  | _, s => .scalar s

namespace Shape

def valueType : Shape → FieldType
  | single type _ _ => type
  | repeated type _ => type
  | map _ value => value

end Shape

/-- A field without a value, inside the default instance of a message. -/
def Field.bareTree (f : Field) : Tree :=
  match f.default with
  | .single (.scalar s) => .leaf (f.shape.valueType.leaf s)
  | .single (.message _) => .message []
  | .list _ => .list []
  | .map _ => .map []

/-- The default instance of a message type. -/
def MessageType.defaultTree (t : MessageType) : Tree :=
  .message (t.ordered.filterMap fun f =>
    if f.oneof?.isSome then none else some (f.name, f.bareTree))

/-- A field without a value. -/
def Field.defaultTree (s : Schema) (f : Field) : Tree :=
  match f.default with
  | .single (.message _) => (f.shape.valueType.target s).defaultTree
  | _ => f.bareTree

/-- The tree of a message whose fields have the given values, and those values the given trees. -/
def MessageType.assemble (s : Schema) (t : MessageType) (fields : List (Nat × FieldValue))
    (trees : List (Nat × Tree)) : Tree :=
  .message (t.ordered.filterMap fun f =>
    if f.oneof?.isSome && !(fields.lookup f.number).any f.holds then none
    else some (f.name, (trees.lookup f.number).getD (f.defaultTree s)))

mutual
def Value.toTree (s : Schema) (type : FieldType) : Value → Tree
  | .scalar x => .leaf (type.leaf x)
  | .message m => m.toTree s (type.target s)

def FieldValue.toTree (s : Schema) (type : FieldType) : FieldValue → Tree
  | .single v => v.toTree s type
  | .list vs => .list (listTrees s type vs)
  | .map entries =>
    .map ((entryTrees s type entries).mergeSort fun a b => a.1.keyLe b.1)

def Message.toTree (s : Schema) (t : MessageType) : Message → Tree
  | .mk fields _ => t.assemble s fields (fieldTrees s t fields)

def listTrees (s : Schema) (type : FieldType) : List Value → List Tree
  | [] => []
  | v :: rest => v.toTree s type :: listTrees s type rest

def entryTrees (s : Schema) (type : FieldType) : List (MapKey × Value) → List (Leaf × Tree)
  | [] => []
  | (k, v) :: rest => (.scalar k.toScalar, v.toTree s type) :: entryTrees s type rest

def fieldTrees (s : Schema) (t : MessageType) : List (Nat × FieldValue) → List (Nat × Tree)
  | [] => []
  | (n, v) :: rest =>
    (n, v.toTree s (((t.field? n).map (·.shape.valueType)).getD default)) ::
      fieldTrees s t rest
end

end GrpcContract
