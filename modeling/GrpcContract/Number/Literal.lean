import GrpcContract.Text.Numeral
import GrpcContract.Number.Binary

/-!
Decimal numbers read as binary floating-point numbers. `Literal` is what is written: a sign,
digits before and after a point, and an exponent. It is read in two ways. `nearest` rounds the
written value once. `scale` keeps the leading digits that fit 64 bits and multiplies or divides
them by a power of ten, so it can be off in the last place.
-/

namespace GrpcContract.Number

/-- A decimal number as it is written. -/
structure Literal where
  negative : Bool
  whole : List Char
  fraction : List Char
  exponent : Option Int

namespace Literal

def isInteger (l : Literal) : Bool :=
  l.fraction.isEmpty && l.exponent.isNone

def digits (l : Literal) : Nat :=
  Text.natOfDigits (l.whole ++ l.fraction)

def scaleExponent (l : Literal) : Int :=
  l.exponent.getD 0 - l.fraction.length

/-- The magnitude nearest to the written value. Exponents far beyond the format are answered
without computing the power. -/
def nearest (f : BinaryFormat) (l : Literal) : Nat :=
  let e := l.scaleExponent
  let n := l.digits
  let size := (l.whole ++ l.fraction).length
  if n = 0 then 0
  else if 400 < e then f.infinity
  else if e + size < -400 then 0
  else if 0 ≤ e then f.round (n * Nat.pow 10 e.toNat) 1
  else f.round n (Nat.pow 10 (-e).toNat)

/-- Takes digits into a number for as long as it stays below `2^64`; answers also the digits left. -/
def absorb (n : Nat) : List Char → Nat × List Char
  | [] => (n, [])
  | c :: cs =>
    let next := 10 * n + (c.toNat - '0'.toNat)
    if next < 0x10000000000000000 then absorb next cs else (n, c :: cs)

/-- The leading digits as a number below `2^64`, and the exponent that goes with them. -/
def leading (l : Literal) : Nat × Int :=
  let (n, beyond) := absorb 0 l.whole
  let (m, ignored) := absorb n l.fraction
  (m, l.exponent.getD 0 + beyond.length - (l.fraction.length - ignored.length))

def power (k : Nat) : Binary64 :=
  Binary64.ofRatio false (Nat.pow 10 k) 1

/-- Divides by `10^308` until the exponent is within the powers that exist; three times is enough
to bring any 64-bit significand to zero. -/
def descend : Nat → Binary64 → Int → Binary64 × Int
  | 0, x, e => (x, e)
  | n + 1, x, e =>
    if e < -308 ∧ x.magnitude ≠ 0 then descend n (x.div (power 308)) (e + 308) else (x, e)

/-- The leading digits times one power of ten, or none beyond the greatest finite number. -/
def scale? (l : Literal) : Option Binary64 :=
  let (x, e) := descend 3 (Binary64.ofInt l.leading.1) l.leading.2
  let y? :=
    if x.magnitude = 0 then some x
    else if 308 < e then none
    else if 0 ≤ e then some (x.mul (power e.toNat))
    else some (x.div (power (-e).toNat))
  (y?.filter Binary64.isFinite).map fun y => if l.negative then y.neg else y

end Literal

/-- Reads an optional sign before what `read` accepts. -/
def signed? (read : List Char → Option α) : List Char → Option (Bool × α)
  | '-' :: cs => (read cs).map (true, ·)
  | '+' :: cs => (read cs).map (false, ·)
  | cs => (read cs).map (false, ·)

/-- Reads a whole exponent, `e` or `E` before it, or nothing. -/
def readExponent? : List Char → Option (Option Int)
  | [] => some none
  | c :: cs =>
    if c = 'e' ∨ c = 'E' then
      (signed? Text.readDigits? cs).map fun (negative, n) =>
        some (if negative then -(n : Int) else n)
    else none

/-- Reads digits with at most one point among them, and an optional exponent. -/
def readUnsigned? (cs : List Char) : Option (List Char × List Char × Option Int) :=
  let whole := cs.takeWhile Char.isDigit
  match cs.dropWhile Char.isDigit with
  | '.' :: rest =>
    let fraction := rest.takeWhile Char.isDigit
    if whole = [] ∧ fraction = [] then none
    else (readExponent? (rest.dropWhile Char.isDigit)).map (whole, fraction, ·)
  | rest => if whole = [] then none else (readExponent? rest).map (whole, [], ·)

/-- A magnitude written as a word: infinity, its short form, or no number, in any case. -/
def BinaryFormat.readWord? (f : BinaryFormat) (cs : List Char) : Option Nat :=
  let word := cs.map Char.toLower
  if word = "inf".toList ∨ word = "infinity".toList then some f.infinity
  else if word = "nan".toList then some f.quietNaN
  else none

/-- Reads a magnitude: a word or a decimal number, rounded to the nearest. -/
def BinaryFormat.readMagnitude? (f : BinaryFormat) (cs : List Char) : Option Nat :=
  f.readWord? cs <|> (readUnsigned? cs).map fun (whole, fraction, exponent) =>
    Literal.nearest f ⟨false, whole, fraction, exponent⟩

def Binary32.ofText? (s : String) : Option Binary32 :=
  (signed? BinaryFormat.single.readMagnitude? s.toList).map fun (negative, g) => ofParts negative g

def Binary64.ofText? (s : String) : Option Binary64 :=
  (signed? BinaryFormat.double.readMagnitude? s.toList).map fun (negative, g) => ofParts negative g

end GrpcContract.Number
