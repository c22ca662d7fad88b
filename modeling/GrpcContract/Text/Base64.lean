/-!
Base64: bytes are written with the standard alphabet and full padding, and read with the standard
or the URL-safe alphabet, with any part of the padding left out.
-/

namespace GrpcContract.Text.Base64

/-- The symbols of the standard alphabet, in the order of their values. -/
def standard : List Char :=
  "ABCDEFGHIJKLMNOPQRSTUVWXYZabcdefghijklmnopqrstuvwxyz0123456789+/".toList

def urlSafe : List Char :=
  "ABCDEFGHIJKLMNOPQRSTUVWXYZabcdefghijklmnopqrstuvwxyz0123456789-_".toList

def symbol (n : Nat) : Char :=
  standard.getD (n % 64) 'A'

def encode : List UInt8 → List Char
  | [] => []
  | [a] => [symbol (a.toNat / 4), symbol (a.toNat * 16), '=', '=']
  | [a, b] =>
    [symbol (a.toNat / 4), symbol (a.toNat * 16 + b.toNat / 16), symbol (b.toNat * 4), '=']
  | a :: b :: c :: rest =>
    symbol (a.toNat / 4) :: symbol (a.toNat * 16 + b.toNat / 16) ::
      symbol (b.toNat * 4 + c.toNat / 64) :: symbol c.toNat :: encode rest

def value? (alphabet : List Char) (c : Char) : Option Nat :=
  let n := alphabet.findIdx (· == c)
  if n < alphabet.length then some n else none

/-- The bytes that two to four symbols of a last group hold; unused low bits are ignored. -/
def ofValues? : List Nat → Option (List UInt8)
  | [a, b] => some [UInt8.ofNat (a * 4 + b / 16)]
  | [a, b, c] => some [UInt8.ofNat (a * 4 + b / 16), UInt8.ofNat (b * 16 + c / 4)]
  | [a, b, c, d] =>
    some [UInt8.ofNat (a * 4 + b / 16), UInt8.ofNat (b * 16 + c / 4), UInt8.ofNat (c * 64 + d)]
  | _ => none

/-- Reads a last group: two or more symbols, then nothing but padding. -/
def decodeLast? (alphabet : List Char) (group : List Char) : Option (List UInt8) := do
  guard ((group.dropWhile (· != '=')).all (· == '='))
  ofValues? (← (group.takeWhile (· != '=')).mapM (value? alphabet))

/-- Reads groups of four symbols; only the last group may be short or padded. -/
def decodeWith? (alphabet : List Char) : List Char → Option (List UInt8)
  | [] => some []
  | a :: b :: c :: d :: e :: rest => do
    let head ← ofValues? (← [a, b, c, d].mapM (value? alphabet))
    return head ++ (← decodeWith? alphabet (e :: rest))
  | group => decodeLast? alphabet group

def decode? (cs : List Char) : Option (List UInt8) :=
  decodeWith? standard cs <|> decodeWith? urlSafe cs

end GrpcContract.Text.Base64
