import GrpcContract.Text.Base64
import GrpcContract.Json.Printer
import GrpcContract.Message.Scalar

/-!
Trees: what a message looks like to a matcher. A tree keeps the order of its fields and entries
and the exact type of every leaf. It has two views in JSON: its text, and a JSON value in which
objects are ordered by key and every floating-point number has 64 bits.
-/

namespace GrpcContract

open Number

/-- A leaf of a tree: a scalar, or an enumeration value under its declared name. -/
inductive Leaf
  | scalar (s : Scalar)
  | symbol (number : Int32) (name : String)
deriving DecidableEq, Inhabited

inductive Tree
  | leaf (l : Leaf)
  | message (fields : List (String × Tree))
  | list (items : List Tree)
  | map (entries : List (Leaf × Tree))
deriving Inhabited

namespace Leaf

def same : Leaf → Leaf → Bool
  | scalar s, scalar t => s.same t
  | l, k => l == k

def key : Leaf → String
  | scalar (.bool b) => if b then "true" else "false"
  | scalar (.int32 n) => toString n.toInt
  | scalar (.int64 n) => toString n.toInt
  | scalar (.uint32 n) => toString n.toNat
  | scalar (.uint64 n) => toString n.toNat
  | scalar (.float x) =>
    if x.isFinite then Layout.key.write32 x
    else if x.isNaN then "NaN" else if x.isNegative then "-inf" else "inf"
  | scalar (.double x) =>
    if x.isFinite then Layout.key.write64 x
    else if x.isNaN then "NaN" else if x.isNegative then "-inf" else "inf"
  | scalar (.string s) => s
  | scalar (.bytes bs) => String.ofList (Text.Base64.encode bs)
  | scalar (.enum n) => toString n.toInt
  | symbol _ name => name

def word (isNaN isNegative : Bool) : String :=
  if isNaN then "NaN" else if isNegative then "-Infinity" else "Infinity"

def toJson : Leaf → Json
  | scalar (.bool b) => .bool b
  | scalar (.int32 n) => .number (.int n.toInt)
  | scalar (.int64 n) => .number (.int n.toInt)
  | scalar (.uint32 n) => .number (.int n.toNat)
  | scalar (.uint64 n) => .number (.int n.toNat)
  | scalar (.float x) =>
    if x.isFinite then .number (.float x.toBinary64) else .string (word x.isNaN x.isNegative)
  | scalar (.double x) =>
    if x.isFinite then .number (.float x) else .string (word x.isNaN x.isNegative)
  | scalar (.string s) => .string s
  | scalar (.bytes bs) => .string (String.ofList (Text.Base64.encode bs))
  | scalar (.enum n) => .number (.int n.toInt)
  | symbol _ name => .string name

/-- The text of a leaf. A finite 32-bit number has the digits that tell it from other such
numbers; anything else has the text of its JSON value. -/
def print : Leaf → List Char
  | scalar (.float x) =>
    if x.isFinite then (Layout.json32.write32 x).toList else (toJson (scalar (.float x))).print
  | l => l.toJson.print

/-- Whether one key comes before or with another. Keys of one type go by value, false before
true; other keys go by their text. -/
def keyLe : Leaf → Leaf → Bool
  | scalar (.bool a), scalar (.bool b) => !a || b
  | scalar (.int32 a), scalar (.int32 b) => a ≤ b
  | scalar (.int64 a), scalar (.int64 b) => a ≤ b
  | scalar (.uint32 a), scalar (.uint32 b) => a ≤ b
  | scalar (.uint64 a), scalar (.uint64 b) => a ≤ b
  | scalar (.string a), scalar (.string b) => a ≤ b
  | a, b => a.key ≤ b.key

end Leaf

namespace Tree

mutual
def print : Tree → List Char
  | leaf l => l.print
  | message fields => '\x7b' :: Json.commaSeparated (printFields fields) ++ ['\x7d']
  | list items => '[' :: Json.commaSeparated (printItems items) ++ [']']
  | map entries => '\x7b' :: Json.commaSeparated (printEntries entries) ++ ['\x7d']

def printFields : List (String × Tree) → List (List Char)
  | [] => []
  | (name, t) :: rest => (Json.quote name ++ ':' :: print t) :: printFields rest

def printItems : List Tree → List (List Char)
  | [] => []
  | t :: rest => print t :: printItems rest

def printEntries : List (Leaf × Tree) → List (List Char)
  | [] => []
  | (k, t) :: rest => (Json.quote k.key ++ ':' :: print t) :: printEntries rest
end

theorem printItems_eq_map (items : List Tree) : printItems items = items.map print := by
  induction items with
  | nil => rfl
  | cons t items ih => simp only [printItems, ih, List.map_cons]

def render (t : Tree) : String :=
  String.ofList t.print

mutual
def toJson : Tree → Json
  | leaf l => l.toJson
  | message fields => .object (Json.sortMembers (fieldsToJson fields))
  | list items => .array (itemsToJson items)
  | map entries => .object (Json.sortMembers (entriesToJson entries))

def fieldsToJson : List (String × Tree) → List (String × Json)
  | [] => []
  | (name, t) :: rest => (name, toJson t) :: fieldsToJson rest

def itemsToJson : List Tree → List Json
  | [] => []
  | t :: rest => toJson t :: itemsToJson rest

def entriesToJson : List (Leaf × Tree) → List (String × Json)
  | [] => []
  | (k, t) :: rest => (k.key, toJson t) :: entriesToJson rest
end

mutual
/-- Equality of trees, leaf by leaf by value. -/
def same : Tree → Tree → Bool
  | leaf l, leaf k => l.same k
  | message fs, message gs => sameFields fs gs
  | list ts, list us => sameItems ts us
  | map es, map ds => sameEntries es ds
  | _, _ => false

def sameFields : List (String × Tree) → List (String × Tree) → Bool
  | [], [] => true
  | (n, t) :: fs, (m, u) :: gs => n == m && same t u && sameFields fs gs
  | _, _ => false

def sameItems : List Tree → List Tree → Bool
  | [], [] => true
  | t :: ts, u :: us => same t u && sameItems ts us
  | _, _ => false

def sameEntries : List (Leaf × Tree) → List (Leaf × Tree) → Bool
  | [], [] => true
  | (k, t) :: es, (j, u) :: ds => k.same j && same t u && sameEntries es ds
  | _, _ => false
end

def field? (t : Tree) (name : String) : Option Tree :=
  match t with
  | message fields => fields.lookup name
  | _ => none

def items? : Tree → Option (List Tree)
  | list items => some items
  | _ => none

def leaf? : Tree → Option Leaf
  | leaf l => some l
  | _ => none

end Tree

end GrpcContract
