import GrpcContract.Number.Binary

/-!
The shortest decimal of a binary floating-point number: of all decimals that read back as the
number, one with the fewest digits, and of those the nearest.
-/

namespace GrpcContract.Number

/-- The decimal `digits · 10^exponent`. -/
structure Decimal where
  digits : Nat
  exponent : Int
deriving DecidableEq, Repr

/-- Which of two equally near neighbours is taken. -/
inductive Tie
  | toEven
  | up
deriving DecidableEq

/-- How many decimal digits a number has; none for zero. -/
def digitCount (n : Nat) : Nat :=
  if n = 0 then 0 else (Nat.toDigits 10 n).length

/-- A positive value between the two midpoints to its neighbours, all over one denominator. -/
structure RoundingInterval where
  low : Nat
  value : Nat
  high : Nat
  den : Nat
  /-- Whether the midpoints themselves read back as the value. -/
  closed : Bool

/-- The interval of the reals that round to a finite positive magnitude. -/
def BinaryFormat.interval (f : BinaryFormat) (g : Nat) : RoundingInterval :=
  let m := f.significand g
  let e := f.exponent g - 2
  let below := if m = f.step ∧ f.minExp < f.exponent g then 1 else 2
  let unit := scaled 1 1 e
  { low := (4 * m - below) * unit.1
    value := 4 * m * unit.1
    high := (4 * m + 2) * unit.1
    den := unit.2
    closed := m % 2 == 0 }

namespace RoundingInterval

def contains (i : RoundingInterval) (x : Nat) : Bool :=
  if i.closed then i.low ≤ x && x ≤ i.high else i.low < x && x < i.high

/-- The interval over a denominator of which `10^k` is a multiple, and that multiple. -/
def onGrid (i : RoundingInterval) (k : Int) : RoundingInterval × Nat :=
  if 0 ≤ k then (i, i.den * Nat.pow 10 k.toNat)
  else
    let s := Nat.pow 10 (-k).toNat
    ({ i with low := i.low * s, value := i.value * s, high := i.high * s }, i.den)

/-- The positive grid point of `10^k` inside the interval that is nearest to the value; none also
where the value lies below the first such point. -/
def nearest? (i : RoundingInterval) (tie : Tie) (k : Int) : Option Nat :=
  let (j, unit) := i.onGrid k
  let d := j.value / unit
  let below := j.value - d * unit
  let above := (d + 1) * unit - j.value
  let lowIn := j.contains (d * unit)
  let highIn := j.contains ((d + 1) * unit)
  if d = 0 then none
  else if lowIn && highIn then
    if below < above then some d
    else if above < below then some (d + 1)
    else match tie with
      | .toEven => some (d + d % 2)
      | .up => some (d + 1)
  else if lowIn then some d
  else if highIn then some (d + 1)
  else none

/-- The first grid with a point inside, from `10^k` downwards. -/
def search (i : RoundingInterval) (tie : Tie) : Nat → Int → Decimal
  | 0, k => ⟨i.value / i.den, k⟩
  | fuel + 1, k =>
    match i.nearest? tie k with
    | some d => ⟨d, k⟩
    | none => search i tie fuel (k - 1)

end RoundingInterval

/-- The greatest power of ten not above a positive quotient, or the one after it. -/
def decimalTop (num den : Nat) : Int :=
  (digitCount num : Int) - digitCount den

def BinaryFormat.shortest (f : BinaryFormat) (tie : Tie) (g : Nat) : Decimal :=
  let i := f.interval g
  i.search tie 24 (decimalTop i.value i.den)

end GrpcContract.Number
