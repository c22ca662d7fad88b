import GrpcContract.Text.Utf8

/-!
Percent-encoding of status messages: printable ASCII other than the percent sign stands for
itself, every other byte of the UTF-8 form is written as a percent sign and two upper-case
hexadecimal digits. Reading keeps whatever is no escape.
-/

namespace GrpcContract.Text.Percent

def hexDigit (n : Nat) : Char :=
  if n < 10 then Char.ofNat (0x30 + n) else Char.ofNat (0x37 + n)

def hexValue? (b : UInt8) : Option Nat :=
  if 0x30 ≤ b && b ≤ 0x39 then some (b.toNat - 0x30)
  else if 0x61 ≤ b && b ≤ 0x66 then some (b.toNat - 0x57)
  else if 0x41 ≤ b && b ≤ 0x46 then some (b.toNat - 0x37)
  else none

def isPlain (b : UInt8) : Bool :=
  0x20 ≤ b && b ≤ 0x7E && b != 0x25

def encodeByte (b : UInt8) : List Char :=
  if isPlain b then [Char.ofNat b.toNat] else ['%', hexDigit (b.toNat / 16), hexDigit (b.toNat % 16)]

def encode (s : String) : String :=
  String.ofList ((Utf8.encode s.toList).flatMap encodeByte)

/-- The two digits that follow a percent sign, as one byte. -/
def escape? (hi lo : UInt8) : Option UInt8 := do
  return UInt8.ofNat ((← hexValue? hi) * 16 + (← hexValue? lo))

def unescape : List UInt8 → List UInt8
  | 0x25 :: hi :: lo :: rest =>
    match escape? hi lo with
    | some b => b :: unescape rest
    | none => 0x25 :: unescape (hi :: lo :: rest)
  | b :: rest => b :: unescape rest
  | [] => []

def decode (s : String) : String :=
  String.ofList (Utf8.decodeLossy (unescape (Utf8.encode s.toList)))

/-- The text that some bytes stand for, where their escapes make up well-formed UTF-8. -/
def decodeBytes? (bs : List UInt8) : Option String :=
  (Utf8.decode? (unescape bs)).map String.ofList

end GrpcContract.Text.Percent
