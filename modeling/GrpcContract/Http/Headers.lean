import GrpcContract.Text.Utf8

/-!
Header maps. A name may have several values; they keep their order. Names are lower-case, values
are bytes.
-/

namespace GrpcContract

/-- A header value that shows as a text: printable ASCII and tabs only. -/
def headerText? (value : List UInt8) : Option String :=
  if value.all fun b => (0x20 ≤ b && b ≤ 0x7E) || b == 0x09 then
    some (String.ofList (value.map fun b => Char.ofNat b.toNat))
  else none

def headerValue (s : String) : List UInt8 :=
  Text.Utf8.encode s.toList

structure Headers where
  entries : List (String × List UInt8) := []
deriving DecidableEq, Inhabited

namespace Headers

def empty : Headers := ⟨[]⟩

def get? (h : Headers) (name : String) : Option (List UInt8) :=
  h.entries.lookup name

/-- The first value of a name, if it is a text. -/
def text? (h : Headers) (name : String) : Option String :=
  (h.get? name).bind headerText?

def contains (h : Headers) (name : String) : Bool :=
  (h.get? name).isSome

def erase (h : Headers) (name : String) : Headers :=
  ⟨h.entries.filter (·.1 != name)⟩

def append (h : Headers) (name : String) (value : List UInt8) : Headers :=
  ⟨h.entries ++ [(name, value)]⟩

/-- The headers with one value for a name, in place of those it had. -/
def insert (h : Headers) (name : String) (value : List UInt8) : Headers :=
  (h.erase name).append name value

def insertText (h : Headers) (name value : String) : Headers :=
  h.insert name (headerValue value)

/-- The headers with the values of another map, in place of those its names had. -/
def override (h other : Headers) : Headers :=
  ⟨h.entries.filter (!other.contains ·.1) ++ other.entries⟩

/-- Headers from names in any case, all values kept. -/
def ofList (entries : List (String × List UInt8)) : Headers :=
  ⟨entries.map fun (name, value) => (name.toLower, value)⟩

/-- Headers from names in any case, the last value of a name kept. -/
def ofLast (entries : List (String × List UInt8)) : Headers :=
  entries.foldl (fun h (name, value) => h.insert name.toLower value) empty

end Headers

end GrpcContract
