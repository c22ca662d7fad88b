/-!
Binary floating-point numbers as bit patterns, and correct rounding to them. A pattern without
its sign bit is one natural number, the magnitude; magnitudes order like the values they stand for.
Everything is exact arithmetic on natural numbers.
-/

namespace GrpcContract.Number

/-- A binary interchange format: how many bits a significand has, how wide the exponent field is,
and the exponent of the last place of the smallest values. -/
structure BinaryFormat where
  precision : Nat
  exponentBits : Nat
  minExp : Int

namespace BinaryFormat

def single : BinaryFormat := ⟨24, 8, -149⟩

def double : BinaryFormat := ⟨53, 11, -1074⟩

variable (f : BinaryFormat)

def step : Nat := Nat.pow 2 (f.precision - 1)

def infinity : Nat := (Nat.pow 2 f.exponentBits - 1) * f.step

def signBit : Nat := Nat.pow 2 f.exponentBits * f.step

/-- The magnitude of the quiet pattern that stands for no number. -/
def quietNaN : Nat := f.infinity + f.step / 2

def significand (g : Nat) : Nat :=
  if g < f.step then g else g % f.step + f.step

def exponent (g : Nat) : Int :=
  if g < f.step then f.minExp else f.minExp + (g / f.step - 1 : Nat)

/-- The magnitude of `m · 2^e`, for a significand that fits and a last place that exists. -/
def magnitude (m : Nat) (e : Int) : Nat :=
  m + (e - f.minExp).toNat * f.step

end BinaryFormat

/-- The quotient rounded to the nearest integer, a half to the even neighbour. -/
def roundDiv (num den : Nat) : Nat :=
  let q := num / den
  let twice := 2 * (num % den)
  if twice < den then q else if twice > den then q + 1 else q + q % 2

/-- `num / den · 2^e` as a quotient. -/
def scaled (num den : Nat) (e : Int) : Nat × Nat :=
  if 0 ≤ e then (num * Nat.pow 2 e.toNat, den) else (num, den * Nat.pow 2 (-e).toNat)

/-- The magnitude nearest to `num / den`; what is too large becomes infinity. -/
def BinaryFormat.round (f : BinaryFormat) (num den : Nat) : Nat :=
  if num = 0 then 0
  else
    let guess := max f.minExp ((num.log2 : Int) - den.log2 - f.precision)
    let low := scaled num den (-guess)
    let e := if low.1 / low.2 < Nat.pow 2 f.precision then guess else guess + 1
    let quotient := scaled num den (-e)
    min f.infinity (f.magnitude (roundDiv quotient.1 quotient.2) e)

/-- A 32-bit floating-point number, by its bits. -/
structure Binary32 where
  bits : UInt32
deriving DecidableEq, Inhabited

/-- A 64-bit floating-point number, by its bits. -/
structure Binary64 where
  bits : UInt64
deriving DecidableEq, Inhabited

namespace Binary32

def ofParts (negative : Bool) (magnitude : Nat) : Binary32 :=
  ⟨UInt32.ofNat (magnitude + if negative then BinaryFormat.single.signBit else 0)⟩

def isNegative (x : Binary32) : Bool := BinaryFormat.single.signBit ≤ x.bits.toNat

def magnitude (x : Binary32) : Nat := x.bits.toNat % BinaryFormat.single.signBit

def isFinite (x : Binary32) : Bool := x.magnitude < BinaryFormat.single.infinity

def isNaN (x : Binary32) : Bool := BinaryFormat.single.infinity < x.magnitude

/-- Equality of values: zeros are equal whatever their sign, and no number equals nothing. -/
def same (x y : Binary32) : Bool :=
  !x.isNaN && (x == y || (x.magnitude == 0 && y.magnitude == 0))

/-- The number nearest to `±num / den`. -/
def ofRatio (negative : Bool) (num den : Nat) : Binary32 :=
  ofParts negative (BinaryFormat.single.round num den)

end Binary32

namespace Binary64

def ofParts (negative : Bool) (magnitude : Nat) : Binary64 :=
  ⟨UInt64.ofNat (magnitude + if negative then BinaryFormat.double.signBit else 0)⟩

def isNegative (x : Binary64) : Bool := BinaryFormat.double.signBit ≤ x.bits.toNat

def magnitude (x : Binary64) : Nat := x.bits.toNat % BinaryFormat.double.signBit

def isFinite (x : Binary64) : Bool := x.magnitude < BinaryFormat.double.infinity

def isNaN (x : Binary64) : Bool := BinaryFormat.double.infinity < x.magnitude

/-- Equality of values: zeros are equal whatever their sign, and no number equals nothing. -/
def same (x y : Binary64) : Bool :=
  !x.isNaN && (x == y || (x.magnitude == 0 && y.magnitude == 0))

/-- The number nearest to `±num / den`. -/
def ofRatio (negative : Bool) (num den : Nat) : Binary64 :=
  ofParts negative (BinaryFormat.double.round num den)

def ofInt (n : Int) : Binary64 :=
  ofRatio (n < 0) n.natAbs 1

def ratio (x : Binary64) : Nat × Nat :=
  scaled (BinaryFormat.double.significand x.magnitude) 1 (BinaryFormat.double.exponent x.magnitude)

def mul (x y : Binary64) : Binary64 :=
  ofRatio (x.isNegative != y.isNegative) (x.ratio.1 * y.ratio.1) (x.ratio.2 * y.ratio.2)

/-- The quotient of two finite numbers, the second not zero. -/
def div (x y : Binary64) : Binary64 :=
  ofRatio (x.isNegative != y.isNegative) (x.ratio.1 * y.ratio.2) (x.ratio.2 * y.ratio.1)

def neg (x : Binary64) : Binary64 :=
  ofParts (!x.isNegative) x.magnitude

def toInt? (x : Binary64) : Option Int :=
  if x.isFinite && x.ratio.1 % x.ratio.2 == 0 then
    some (if x.isNegative then -(x.ratio.1 / x.ratio.2 : Nat) else (x.ratio.1 / x.ratio.2 : Nat))
  else none

def toBinary32 (x : Binary64) : Binary32 :=
  Binary32.ofRatio x.isNegative x.ratio.1 x.ratio.2

end Binary64

def Binary32.ratio (x : Binary32) : Nat × Nat :=
  scaled (BinaryFormat.single.significand x.magnitude) 1 (BinaryFormat.single.exponent x.magnitude)

def Binary32.toBinary64 (x : Binary32) : Binary64 :=
  if x.isFinite then Binary64.ofRatio x.isNegative x.ratio.1 x.ratio.2
  else if x.isNaN then Binary64.ofParts x.isNegative BinaryFormat.double.quietNaN
  else Binary64.ofParts x.isNegative BinaryFormat.double.infinity

end GrpcContract.Number
