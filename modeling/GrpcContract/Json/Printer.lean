import GrpcContract.Json.Basic
import GrpcContract.Number.Format

/-!
The compact text of a JSON value.
-/

namespace GrpcContract.Json

open GrpcContract.Number

def hexDigit (n : Nat) : Char :=
  if n < 10 then Char.ofNat (0x30 + n) else Char.ofNat (0x57 + n)

/-- The written form of one character of a string: quotes, backslashes and control characters
below U+0020 are escaped, everything else stands for itself. -/
def escape (c : Char) : List Char :=
  match c with
  | '"' => ['\\', '"']
  | '\\' => ['\\', '\\']
  | '\x08' => ['\\', 'b']
  | '\t' => ['\\', 't']
  | '\n' => ['\\', 'n']
  | '\x0c' => ['\\', 'f']
  | '\r' => ['\\', 'r']
  | c =>
    if c.toNat < 0x20 then
      ['\\', 'u', '0', '0', hexDigit (c.toNat / 16), hexDigit (c.toNat % 16)]
    else [c]

def quote (s : String) : List Char :=
  '"' :: s.toList.flatMap escape ++ ['"']

def commaSeparated (parts : List (List Char)) : List Char :=
  (parts.intersperse [',']).flatten

def Number.print : Json.Number → List Char
  | .int n => (toString n).toList
  | .float x => (Layout.json64.write64 x).toList

mutual
/-- The text without blanks. An unreadable value has none of its own and reads as null. -/
def print : Json → List Char
  | null | unreadable => "null".toList
  | bool b => (if b then "true" else "false").toList
  | number n => n.print
  | string s => quote s
  | array items => '[' :: commaSeparated (printItems items) ++ [']']
  | object members => '\x7b' :: commaSeparated (printMembers members) ++ ['\x7d']

def printItems : List Json → List (List Char)
  | [] => []
  | value :: rest => print value :: printItems rest

def printMembers : List (String × Json) → List (List Char)
  | [] => []
  | (key, value) :: rest => (quote key ++ ':' :: print value) :: printMembers rest
end

def render (value : Json) : String :=
  String.ofList value.print

end GrpcContract.Json
