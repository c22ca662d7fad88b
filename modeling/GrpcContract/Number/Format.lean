import GrpcContract.Number.Shortest

/-!
The written form of a binary floating-point number: its shortest decimal, laid out by a record of
the format's decisions.
-/

namespace GrpcContract.Number

/-- How a decimal `d.ddd · 10^e` is laid out: which exponents are written positionally (none are
left out when the bounds are absent), whether a whole number keeps one zero after the point, and
which of two equally near decimals is taken. -/
structure Layout where
  positional : Option (Int × Int)
  fraction : Bool
  tie : Tie

/-- A 64-bit number in JSON: positional from `10^-5` to below `10^16`. -/
def Layout.json64 : Layout := ⟨some (-5, 15), true, .toEven⟩

/-- A 32-bit number in JSON: positional from `10^-6` to below `10^13`. -/
def Layout.json32 : Layout := ⟨some (-6, 12), true, .toEven⟩

/-- A number used as a key: always positional, and bare when it is whole. -/
def Layout.key : Layout := ⟨none, false, .up⟩

/-- The digits of a decimal without zeros at the end, and the exponent of the first of them. -/
def Decimal.parts (d : Decimal) : List Char × Int :=
  let ds := Nat.toDigits 10 d.digits
  ((ds.reverse.dropWhile (· == '0')).reverse, d.exponent + ds.length - 1)

/-- Digits with a point after the digit of `10^0`. -/
def Layout.writePositional (l : Layout) (ds : List Char) (e : Int) : List Char :=
  if e < 0 then '0' :: '.' :: List.replicate (-e - 1).toNat '0' ++ ds
  else
    let whole := ds.take (e.toNat + 1) ++ List.replicate (e.toNat + 1 - ds.length) '0'
    match ds.drop (e.toNat + 1) with
    | [] => if l.fraction then whole ++ ['.', '0'] else whole
    | rest => whole ++ '.' :: rest

/-- One digit, a point and the others if there are any, and a signed exponent. -/
def writeScientific (ds : List Char) (e : Int) : List Char :=
  let mantissa := match ds with
    | d :: d' :: rest => d :: '.' :: d' :: rest
    | ds => ds
  mantissa ++ 'e' :: (if e < 0 then '-' else '+') :: Nat.toDigits 10 e.natAbs

def Layout.write (l : Layout) (d : Decimal) : List Char :=
  let (ds, e) := d.parts
  match l.positional with
  | some (lo, hi) => if lo ≤ e ∧ e ≤ hi then l.writePositional ds e else writeScientific ds e
  | none => l.writePositional ds e

def Layout.writeMagnitude (l : Layout) (f : BinaryFormat) (g : Nat) : List Char :=
  if g = 0 then (if l.fraction then ['0', '.', '0'] else ['0']) else l.write (f.shortest l.tie g)

def Layout.write32 (l : Layout) (x : Binary32) : String :=
  String.ofList ((if x.isNegative then ['-'] else []) ++ l.writeMagnitude .single x.magnitude)

def Layout.write64 (l : Layout) (x : Binary64) : String :=
  String.ofList ((if x.isNegative then ['-'] else []) ++ l.writeMagnitude .double x.magnitude)

end GrpcContract.Number
