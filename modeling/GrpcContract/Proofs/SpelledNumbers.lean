import GrpcContract.Proofs.FloatText
import GrpcContract.Proofs.ShortestIntervals

/-!
# What the text of a number spells

However the shortest decimal of a floating-point number is laid out, the digits of the text and its
power of ten are a decimal that rounds to the number.
-/

namespace GrpcContract.Number

open BinaryFormat

namespace Decimal

variable {d : Decimal} {l : Layout} {n : Nat} {e : Int}

theorem LaidOut.value_eq (hlaid : d.LaidOut l n e) :
    (n * 10 ^ e : ℚ) = d.stripped.digits * 10 ^ d.stripped.exponent := by
  rcases hlaid with ⟨rfl, rfl⟩ | ⟨zeros, hzeros, rfl, rfl, -⟩
  · rfl
  · rw [hzeros, zpow_natCast]
    push_cast
    rw [pow_succ]
    norm_num
    ring

theorem value_stripped (d : Decimal) :
    (d.stripped.digits * 10 ^ d.stripped.exponent : ℚ) = d.digits * 10 ^ d.exponent := by
  obtain ⟨zeros, hdigits, hexponent⟩ := d.exists_stripped_eq
  rw [hexponent, zpow_add₀ (by norm_num), zpow_natCast, ← hdigits]
  push_cast
  ring

theorem LaidOut.pos (hlaid : d.LaidOut l n e) (hpos : 0 < d.digits) : 0 < n := by
  have hstripped := digits_stripped_pos hpos
  rcases hlaid with ⟨rfl, -⟩ | ⟨zeros, -, rfl, -⟩
  · exact hstripped
  · exact Nat.mul_pos hstripped (Nat.pow_pos (by decide))

end Decimal

/-- The decimal that a text spells, for a positive number: it rounds to the number, and is laid out
from one with few more digits than the significand. -/
theorem Layout.Spells.roundsTo {l : Layout} {f : BinaryFormat} {g n : Nat} {e : Int}
    (hprecision : 2 ≤ f.precision) (hbits : f.precision ≤ 53) (hspells : l.Spells f (g + 1) n e) :
    0 < n ∧ f.RoundsTo (n * 10 ^ e) (g + 1) ∧
      ∃ d, d = f.shortest l.tie (g + 1) ∧ 0 < d.digits ∧ d.digits < 2 ^ (f.precision + 7) ∧
        d.LaidOut l n e := by
  obtain ⟨hzero, -⟩ | ⟨-, hlaid⟩ := hspells
  · exact absurd hzero (by omega)
  obtain ⟨hfound, hdigits⟩ := shortest_spec hprecision hbits l.tie g
  have hpos := digits_shortest_pos (f := f) (g := g + 1) (by omega) hbits l.tie (by omega)
  refine ⟨hlaid.pos hpos, ?_, _, rfl, hpos, hdigits, hlaid⟩
  rw [hlaid.value_eq, Decimal.value_stripped]
  exact roundsTo_of_nearest? hprecision hfound

end GrpcContract.Number
