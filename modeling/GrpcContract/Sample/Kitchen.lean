import GrpcContract.Sample.Schema

/-!
A sample schema with every kind of field: all scalar kinds, fields with presence, packed and loose
lists, maps of every sort of key, groups, nesting and unusual names, in a package of its user's
choice.
-/

namespace GrpcContract.Sample

namespace Kitchen

def level (package : String) : EnumType :=
  ⟨package ++ ".Level",
    [("LEVEL_ZERO", 0), ("LEVEL_TEN", 10), ("LEVEL_NEG", -1), ("LEVEL_MAX", 2147483647)]⟩

/-- A field with presence, alone in its group. -/
def optional (name : String) (number : Nat) (type : FieldType) : Field :=
  .declare name number (.optional ("_" ++ name) type)

/-- One field of each scalar kind, declared out of the order of their numbers. -/
def scalars (package : String) : MessageType :=
  ⟨package ++ ".Scalars", [
    .declare "f_double" 15 (.one (.scalar .double)),
    .declare "f_float" 2 (.one (.scalar .float)),
    .declare "f_int32" 3 (.one (.scalar .int32)),
    .declare "f_int64" 4 (.one (.scalar .int64)),
    .declare "f_uint32" 5 (.one (.scalar .uint32)),
    .declare "f_uint64" 6 (.one (.scalar .uint64)),
    .declare "f_sint32" 7 (.one (.scalar .sint32)),
    .declare "f_sint64" 8 (.one (.scalar .sint64)),
    .declare "f_fixed32" 9 (.one (.scalar .fixed32)),
    .declare "f_fixed64" 10 (.one (.scalar .fixed64)),
    .declare "f_sfixed32" 11 (.one (.scalar .sfixed32)),
    .declare "f_sfixed64" 12 (.one (.scalar .sfixed64)),
    .declare "f_bool" 13 (.one (.scalar .bool)),
    .declare "f_string" 14 (.one (.scalar .string)),
    .declare "f_bytes" 1 (.one (.scalar .bytes)),
    .declare "f_level" 200 (.one (.enum (level package)))]⟩

def optionals (package : String) : MessageType :=
  ⟨package ++ ".Optionals", [
    optional "o_int" 1 (.scalar .int32),
    optional "o_string" 2 (.scalar .string),
    optional "o_bool" 3 (.scalar .bool),
    optional "o_double" 4 (.scalar .double),
    optional "o_bytes" 5 (.scalar .bytes),
    optional "o_level" 6 (.enum (level package)),
    optional "o_leaf" 7 (.message (package ++ ".Leaf"))]⟩

def lists (package : String) : MessageType :=
  ⟨package ++ ".Lists", [
    .declare "doubles" 1 (.many (.scalar .double)),
    .declare "floats" 2 (.many (.scalar .float)),
    .declare "ints" 3 (.many (.scalar .int32)),
    .declare "zigzags" 4 (.many (.scalar .sint64)),
    .declare "fixeds" 5 (.many (.scalar .fixed32)),
    .declare "bools" 6 (.many (.scalar .bool)),
    .declare "strings" 7 (.many (.scalar .string)),
    .declare "blobs" 8 (.many (.scalar .bytes)),
    .declare "levels" 9 (.many (.enum (level package))),
    .declare "leaves" 10 (.many (.message (package ++ ".Leaf"))),
    .declare "loose" 11 (.repeated (.scalar .uint64) false)]⟩

def maps (package : String) : MessageType :=
  ⟨package ++ ".Maps", [
    .declare "by_bool" 1 (.map .bool (.scalar .string)),
    .declare "by_int32" 2 (.map .int32 (.scalar .string)),
    .declare "by_int64" 3 (.map .int64 (.scalar .bool)),
    .declare "by_uint32" 4 (.map .uint32 (.scalar .double)),
    .declare "by_uint64" 5 (.map .uint64 (.scalar .uint64)),
    .declare "by_sint32" 6 (.map .sint32 (.scalar .bytes)),
    .declare "by_fixed64" 7 (.map .fixed64 (.scalar .float)),
    .declare "by_string" 8 (.map .string (.enum (level package))),
    .declare "leaves" 9 (.map .string (.message (package ++ ".Leaf"))),
    .declare "nested" 10 (.map .int32 (.message (package ++ ".Maps")))]⟩

def leaf (package : String) : MessageType :=
  ⟨package ++ ".Leaf", [
    .declare "name" 1 (.one (.scalar .string)),
    .declare "size" 2 (.one (.scalar .int32))]⟩

/-- A message that holds others of its own type in fields, lists, maps and a group. -/
def tree (package : String) : MessageType :=
  ⟨package ++ ".Tree", [
    .declare "leaf" 1 (.one (.message (package ++ ".Leaf"))),
    .declare "left" 2 (.one (.message (package ++ ".Tree"))),
    .declare "right" 3 (.one (.message (package ++ ".Tree"))),
    .declare "kids" 4 (.map .string (.message (package ++ ".Tree"))),
    .declare "pick_leaf" 5 (.member "pick" (.message (package ++ ".Leaf"))),
    .declare "pick_tree" 6 (.member "pick" (.message (package ++ ".Tree"))),
    .declare "pick_int" 7 (.member "pick" (.scalar .int32)),
    .declare "pick_text" 8 (.member "pick" (.scalar .string)),
    .declare "pick_level" 9 (.member "pick" (.enum (level package))),
    .declare "opts" 10 (.one (.message (package ++ ".Optionals"))),
    .declare "row" 11 (.many (.message (package ++ ".Tree")))]⟩

def names (package : String) : MessageType :=
  ⟨package ++ ".Names", [
    .declare "snake_case_name" 1 (.one (.scalar .string)),
    .declare "camelCase" 2 (.one (.scalar .string)),
    ⟨"custom", 3, "@other", .one (.scalar .string)⟩,
    .declare "_lead" 4 (.one (.scalar .string)),
    .declare "with_2_num" 5 (.one (.scalar .string)),
    .declare "UPPER" 6 (.one (.scalar .string)),
    .declare "trailing_" 7 (.one (.scalar .string))]⟩

end Kitchen

open Kitchen in
/-- The sample schema in a package. One of its methods uses a type of the other sample schema. -/
def kitchen (package : String) : Schema :=
  { messages := [
      scalars package, optionals package, lists package, maps package, leaf package, tree package,
      names package, ⟨package ++ ".Empty", []⟩]
    services := [
      .declare (package ++ ".KitchenService") [
        ("Mix", false, package ++ ".Scalars", false, package ++ ".Lists"),
        ("Pour", true, package ++ ".Leaf", false, package ++ ".Maps"),
        ("Bake", false, package ++ ".Names", true, package ++ ".Tree"),
        ("Serve", true, package ++ ".Optionals", true, package ++ ".Scalars")],
      .declare (package ++ ".EchoService") [
        ("Tree", false, package ++ ".Tree", false, package ++ ".Tree"),
        ("Everything", false, everything.name, false, everything.name),
        ("Trees", true, package ++ ".Tree", true, package ++ ".Tree"),
        ("Leaves", true, package ++ ".Leaf", true, package ++ ".Leaf"),
        ("Maps", false, package ++ ".Maps", false, package ++ ".Maps"),
        ("Scalars", false, package ++ ".Scalars", false, package ++ ".Scalars"),
        ("Nothing", false, package ++ ".Empty", false, package ++ ".Empty"),
        ("Nothings", true, package ++ ".Empty", true, package ++ ".Empty")],
      .declare (package ++ ".IdleService") []] }

end GrpcContract.Sample
