import GrpcContract.Number.Shortest
import Mathlib.Data.Nat.Digits.Defs
import Mathlib.Tactic.Linarith
import Mathlib.Tactic.Ring

/-!
# Shortest decimals have digits

The search for the shortest decimal of a number goes down from its leading digit. Its grid gets
finer than half the distance to the neighbours of the number before the search gives up, so a
decimal is found, and it is not zero.
-/

namespace GrpcContract.Number

theorem digitCount_of_pos {n : Nat} (hpos : 0 < n) : digitCount n = (Nat.toDigits 10 n).length := by
  rw [digitCount, if_neg (by omega)]

theorem lt_pow_digitCount {n : Nat} (hpos : 0 < n) : n < 10 ^ digitCount n := by
  rw [digitCount_of_pos hpos]
  exact (Nat.length_toDigits_le_iff (by decide) Nat.length_toDigits_pos).mp (Nat.le_refl _)

theorem pow_digitCount_le {n : Nat} (hpos : 0 < n) : 10 ^ (digitCount n - 1) ≤ n := by
  rw [digitCount_of_pos hpos]
  by_cases hone : (Nat.toDigits 10 n).length - 1 = 0
  · simpa [hone] using Nat.succ_le_of_lt hpos
  · have hlength := Nat.length_toDigits_le_iff (b := 10) (n := n) (by decide)
      (Nat.pos_of_ne_zero hone)
    omega

namespace RoundingInterval

variable {i : RoundingInterval} {tie : Tie} {k : Int}

theorem pos_of_nearest? {d : Nat} (hfound : i.nearest? tie k = some d) : 0 < d := by
  unfold nearest? at hfound
  simp only at hfound
  repeat' split at hfound
  all_goals grind

/-- A grid that is finer than the lower half of the interval has a point in it. -/
theorem isSome_nearest? (hhigh : (i.onGrid k).1.value < (i.onGrid k).1.high)
    (hunit : 0 < (i.onGrid k).2)
    (hfine : (i.onGrid k).1.low + (i.onGrid k).2 ≤ (i.onGrid k).1.value) :
    (i.nearest? tie k).isSome = true := by
  generalize hgrid : i.onGrid k = grid at hhigh hunit hfine
  obtain ⟨j, unit⟩ := grid
  simp only at hhigh hunit hfine
  have hfirst : 0 < j.value / unit := Nat.div_pos (by omega) hunit
  have hbelow : j.value / unit * unit ≤ j.value := Nat.div_mul_le_self ..
  have habove : j.value < j.value / unit * unit + unit := Nat.lt_div_mul_add hunit
  have hin : j.contains (j.value / unit * unit) = true := by
    unfold contains
    split <;> simp <;> omega
  unfold nearest?
  simp only [hgrid, hin, Bool.true_and, Nat.ne_of_gt hfirst, ↓reduceIte]
  repeat' split
  all_goals rfl

/-- The search finds a point wherever one of the grids that it goes through has one. -/
theorem search_pos {fuel n : Nat} (hn : n < fuel)
    (hfound : (i.nearest? tie (k - n)).isSome = true) :
    0 < (i.search tie fuel k).digits := by
  induction fuel generalizing k n with
  | zero => omega
  | succ fuel ih =>
      rw [search]
      cases hnearest : i.nearest? tie k with
      | some d => exact pos_of_nearest? hnearest
      | none =>
          cases n with
          | zero => simp [hnearest] at hfound
          | succ n =>
              apply ih (n := n) (by omega)
              rwa [show k - 1 - (n : Int) = k - (n + 1 : Nat) by omega]

end RoundingInterval

/-! ### Grids that are fine enough -/

/-- What is a part of a number with few digits is large. -/
theorem le_of_mul_le {m part b d : Nat} (hm : 4 * m < 10 ^ 22)
    (hpart : 10 ^ 22 * b ≤ 4 * m * part) (hd : d ≤ b) : d ≤ part := by
  by_contra hlt
  have hsmall : 4 * m * part ≤ 10 ^ 22 * part := Nat.mul_le_mul_right part hm.le
  omega

namespace BinaryFormat

variable {f : BinaryFormat} {g : Nat}

theorem step_pos : 0 < f.step :=
  Nat.pow_pos (by decide)

theorem significand_pos (hg : 0 < g) : 0 < f.significand g := by
  have hstep := f.step_pos
  unfold significand
  split <;> omega

theorem significand_lt (hprecision : 0 < f.precision) : f.significand g < 2 ^ f.precision := by
  have hdouble : 2 ^ f.precision = 2 * f.step := by
    obtain ⟨n, hn⟩ : ∃ n, f.precision = n + 1 := ⟨f.precision - 1, by omega⟩
    simp [step, hn, Nat.pow_succ, Nat.mul_comm]
  have hmod := Nat.mod_lt g f.step_pos
  unfold significand
  split <;> omega

theorem scaled_snd_pos (num : Nat) {den : Nat} (hden : 0 < den) (e : Int) :
    0 < (scaled num den e).2 := by
  unfold scaled
  split
  · exact hden
  · exact Nat.mul_pos hden (Nat.pow_pos (by decide))

theorem scaled_pos {num den : Nat} (hnum : 0 < num) (hden : 0 < den) (e : Int) :
    0 < (scaled num den e).1 ∧ 0 < (scaled num den e).2 := by
  refine ⟨?_, scaled_snd_pos num hden e⟩
  unfold scaled
  split
  · exact Nat.mul_pos hnum (Nat.pow_pos (by decide))
  · exact hnum

/-- A positive number of a format is a significand of some quarters of its last place, and two of
these at most lie between it and the lower midpoint. -/
theorem exists_quarter_interval (f : BinaryFormat) (hg : 0 < g) : ∃ quarter, 0 < quarter ∧
    0 < (f.interval g).den ∧ (f.interval g).value = 4 * f.significand g * quarter ∧
    (f.interval g).low + quarter ≤ (f.interval g).value ∧
    (f.interval g).value < (f.interval g).high := by
  have hunit := scaled_pos Nat.one_pos Nat.one_pos (f.exponent g - 2)
  have hm : 0 < f.significand g := f.significand_pos hg
  refine ⟨(scaled 1 1 (f.exponent g - 2)).1, hunit.1, hunit.2, rfl, ?_, ?_⟩
  · simp only [interval]
    split
    · nlinarith [hunit.1, Nat.sub_add_cancel (show 1 ≤ 4 * f.significand g by omega)]
    · nlinarith [hunit.1, Nat.sub_add_cancel (show 2 ≤ 4 * f.significand g by omega)]
  · simp only [interval]
    exact Nat.mul_lt_mul_of_pos_right (by omega) hunit.1

/-- The twenty-fourth grid from the leading digit downwards is fine enough for any number of a
format whose significands have at most 53 bits. -/
theorem fine_onGrid (hprecision : 0 < f.precision) (hbits : f.precision ≤ 53) (hg : 0 < g) :
    let grid := (f.interval g).onGrid (decimalTop (f.interval g).value (f.interval g).den - 23)
    grid.1.value < grid.1.high ∧ 0 < grid.2 ∧ grid.1.low + grid.2 ≤ grid.1.value := by
  obtain ⟨quarter, hquarter, hden, hvalue, hlow, hhigh⟩ := f.exists_quarter_interval hg
  have hm : 4 * f.significand g < 10 ^ 22 := by
    have hlt := f.significand_lt (g := g) hprecision
    have hle : 2 ^ f.precision ≤ 2 ^ 53 := Nat.pow_le_pow_right (by decide) hbits
    omega
  have hpos : 0 < (f.interval g).value := by omega
  have hcount : 0 < digitCount (f.interval g).value := by
    rw [digitCount_of_pos hpos]
    exact Nat.length_toDigits_pos
  have htop := pow_digitCount_le hpos
  have hbottom := lt_pow_digitCount hden
  have hpow (n : Nat) : 0 < Nat.pow 10 n := Nat.pow_pos (by decide)
  generalize f.interval g = i at *
  unfold decimalTop RoundingInterval.onGrid
  generalize hk : (digitCount i.value : Int) - digitCount i.den - 23 = k
  split
  · have hsum : digitCount i.value - 1 = 22 + (digitCount i.den + k.toNat) := by omega
    have hunit : i.den * Nat.pow 10 k.toNat ≤ quarter := by
      apply le_of_mul_le (d := i.den * Nat.pow 10 k.toNat) hm
        (b := 10 ^ digitCount i.den * 10 ^ k.toNat)
      · rwa [← Nat.pow_add, ← Nat.pow_add, ← hsum, ← hvalue]
      · exact Nat.mul_le_mul_right _ hbottom.le
    exact ⟨hhigh, Nat.mul_pos hden (hpow _), (Nat.add_le_add_left hunit _).trans hlow⟩
  · have hsum : digitCount i.value - 1 + (-k).toNat = 22 + digitCount i.den := by omega
    have hunit : i.den ≤ quarter * Nat.pow 10 (-k).toNat := by
      apply le_of_mul_le hm (b := 10 ^ digitCount i.den)
      · rw [← Nat.pow_add, ← hsum, Nat.pow_add, ← Nat.mul_assoc, ← hvalue]
        exact Nat.mul_le_mul_right _ htop
      · exact hbottom.le
    refine ⟨Nat.mul_lt_mul_of_pos_right hhigh (hpow _), hden, ?_⟩
    calc i.low * Nat.pow 10 (-k).toNat + i.den
        ≤ i.low * Nat.pow 10 (-k).toNat + quarter * Nat.pow 10 (-k).toNat := by omega
      _ = (i.low + quarter) * Nat.pow 10 (-k).toNat := by ring
      _ ≤ i.value * Nat.pow 10 (-k).toNat := Nat.mul_le_mul_right _ hlow

/-- The shortest decimal of a positive number is not zero. -/
theorem digits_shortest_pos (hprecision : 0 < f.precision) (hbits : f.precision ≤ 53)
    (tie : Tie) (hg : 0 < g) : 0 < (f.shortest tie g).digits := by
  obtain ⟨hhigh, hunit, hfine⟩ := fine_onGrid hprecision hbits hg
  exact RoundingInterval.search_pos (n := 23) (by decide)
    (RoundingInterval.isSome_nearest? hhigh hunit hfine)

end BinaryFormat

end GrpcContract.Number
