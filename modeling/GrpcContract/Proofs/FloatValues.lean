import GrpcContract.Number.Literal
import GrpcContract.Proofs.Rounding

/-!
# Values of floating-point numbers

A floating-point number is a sign and a magnitude. Its quotient is the value of its magnitude, and
what is made from a quotient has the magnitude that the quotient rounds to.
-/

namespace GrpcContract.Number

open BinaryFormat

theorem BinaryFormat.round_le_infinity (f : BinaryFormat) (num den : Nat) :
    f.round num den ≤ f.infinity := by
  unfold round
  split
  · exact Nat.zero_le _
  · exact Nat.min_le_left ..

theorem infinity_single : single.infinity = 0x7F800000 := by decide

theorem signBit_single : single.signBit = 0x80000000 := by decide

theorem infinity_double : double.infinity = 0x7FF0000000000000 := by decide

theorem signBit_double : double.signBit = 0x8000000000000000 := by decide

/-! ### Signs and magnitudes -/

namespace Binary32

theorem toNat_bits_ofParts (negative : Bool) {g : Nat} (hg : g ≤ single.infinity) :
    (ofParts negative g).bits.toNat = g + if negative then single.signBit else 0 := by
  rw [infinity_single] at hg
  rw [ofParts, signBit_single, UInt32.toNat_ofNat']
  cases negative <;> simp <;> omega

@[simp]
theorem magnitude_ofParts (negative : Bool) {g : Nat} (hg : g ≤ single.infinity) :
    (ofParts negative g).magnitude = g := by
  rw [magnitude, toNat_bits_ofParts negative hg]
  rw [infinity_single] at hg
  rw [signBit_single]
  cases negative <;> simp <;> omega

@[simp]
theorem isNegative_ofParts (negative : Bool) {g : Nat} (hg : g ≤ single.infinity) :
    (ofParts negative g).isNegative = negative := by
  rw [isNegative, toNat_bits_ofParts negative hg]
  rw [infinity_single] at hg
  rw [signBit_single]
  cases negative <;> simp
  omega

/-- A number is its sign and its magnitude. -/
theorem ofParts_magnitude (x : Binary32) : ofParts x.isNegative x.magnitude = x := by
  obtain ⟨bits⟩ := x
  have hlt : bits.toNat < 0x100000000 := bits.toNat_lt
  rw [ofParts, isNegative, magnitude, signBit_single, Binary32.mk.injEq, ← UInt32.toNat_inj,
    UInt32.toNat_ofNat']
  by_cases hsign : 0x80000000 ≤ bits.toNat <;> simp [hsign] <;> omega

end Binary32

namespace Binary64

theorem toNat_bits_ofParts (negative : Bool) {g : Nat} (hg : g ≤ double.infinity) :
    (ofParts negative g).bits.toNat = g + if negative then double.signBit else 0 := by
  rw [infinity_double] at hg
  rw [ofParts, signBit_double, UInt64.toNat_ofNat']
  cases negative <;> simp <;> omega

@[simp]
theorem magnitude_ofParts (negative : Bool) {g : Nat} (hg : g ≤ double.infinity) :
    (ofParts negative g).magnitude = g := by
  rw [magnitude, toNat_bits_ofParts negative hg]
  rw [infinity_double] at hg
  rw [signBit_double]
  cases negative <;> simp <;> omega

@[simp]
theorem isNegative_ofParts (negative : Bool) {g : Nat} (hg : g ≤ double.infinity) :
    (ofParts negative g).isNegative = negative := by
  rw [isNegative, toNat_bits_ofParts negative hg]
  rw [infinity_double] at hg
  rw [signBit_double]
  cases negative <;> simp
  omega

/-- A number is its sign and its magnitude. -/
theorem ofParts_magnitude (x : Binary64) : ofParts x.isNegative x.magnitude = x := by
  obtain ⟨bits⟩ := x
  have hlt : bits.toNat < 0x10000000000000000 := bits.toNat_lt
  rw [ofParts, isNegative, magnitude, signBit_double, Binary64.mk.injEq, ← UInt64.toNat_inj,
    UInt64.toNat_ofNat']
  by_cases hsign : 0x8000000000000000 ≤ bits.toNat <;> simp [hsign] <;> omega

theorem eq_of_magnitude_eq {x y : Binary64} (hsign : y.isNegative = x.isNegative)
    (hmagnitude : y.magnitude = x.magnitude) : y = x := by
  rw [← y.ofParts_magnitude, hsign, hmagnitude, x.ofParts_magnitude]

/-- The absolute value of a finite number. -/
def abs (x : Binary64) : ℚ :=
  double.value x.magnitude

theorem ratio_pos (x : Binary64) : 0 < x.ratio.2 :=
  scaled_snd_pos _ Nat.one_pos _

theorem ratio_eq (x : Binary64) : (x.ratio.1 : ℚ) / x.ratio.2 = x.abs := by
  rw [ratio, scaled_eq, abs, value, Nat.cast_one, div_one]

theorem magnitude_ofRatio (negative : Bool) (num den : Nat) :
    (ofRatio negative num den).magnitude = double.round num den :=
  magnitude_ofParts negative (round_le_infinity ..)

theorem isNegative_ofRatio (negative : Bool) (num den : Nat) :
    (ofRatio negative num den).isNegative = negative :=
  isNegative_ofParts negative (round_le_infinity ..)

/-- A number is the rounding of a positive quantity: it is finite and not negative, and has the
magnitude that the quantity rounds to. -/
structure Rounds (q : ℚ) (x : Binary64) : Prop where
  roundsTo : double.RoundsTo q x.magnitude
  isNegative : x.isNegative = false
  isFinite : x.isFinite = true

/-- Numbers that are neither too small to have all places nor too large to be finite. -/
def Ordinary (q : ℚ) : Prop :=
  double.value double.step ≤ q ∧ q < double.middle (double.infinity - 1)

theorem value_step : double.value double.step = 2 ^ (-1022 : Int) := by
  have hsignificand : (double.significand double.step : ℚ) = 2 ^ (52 : Int) := by
    norm_cast
  have hexponent : double.exponent double.step = -1074 := by decide
  rw [value, hsignificand, hexponent, ← zpow_add₀ (by norm_num)]
  norm_num

theorem middle_top {g : Nat} (hexponent : double.exponent g = 971) :
    double.middle g = (2 * double.significand g + 1) * 2 ^ (970 : Int) := by
  rw [middle_eq, value, hexponent, show (971 : Int) = 970 + 1 by norm_num,
    zpow_add_one₀ (by norm_num)]
  ring

/-- The number from which on numbers are read as infinity. -/
theorem middle_greatest :
    double.middle (double.infinity - 1) = (2 ^ 54 - 1) * 2 ^ (970 : Int) := by
  have hsignificand : double.significand (double.infinity - 1) = 2 ^ 53 - 1 := by decide
  rw [middle_top (by decide), hsignificand]
  norm_num

theorem pow_lt_middle_greatest : (2 : ℚ) ^ (1023 : Int) < double.middle (double.infinity - 1) := by
  rw [middle_greatest, show (1023 : Int) = 53 + 970 by norm_num, zpow_add₀ (by norm_num)]
  have hplace : (0 : ℚ) < 2 ^ (970 : Int) := by positivity
  gcongr
  norm_num

theorem Ordinary.pos {q : ℚ} (hq : Ordinary q) : 0 < q :=
  lt_of_lt_of_le (value_pos double.step_pos) hq.1

theorem rounds_ofRatio {num den : Nat} {q : ℚ} (hden : 0 < den) (hq : (num : ℚ) / den = q)
    (hordinary : Ordinary q) : Rounds q (ofRatio false num den) := by
  have hnum : 0 < num := by
    by_contra hzero
    have hpos := hordinary.pos
    simp [← hq, show num = 0 by omega] at hpos
  obtain ⟨g, hg, hround⟩ := roundsTo_round (f := double) (by decide) hnum hden
  rw [hq] at hg
  have hle := hg.lt_of_lt hordinary.2
  have hinfinity := infinity_double
  have hmagnitude : (ofRatio false num den).magnitude = g := by
    rw [magnitude_ofRatio, hround]
    omega
  refine ⟨hmagnitude ▸ hg, isNegative_ofRatio .., ?_⟩
  simp only [isFinite, hmagnitude, decide_eq_true_eq]
  omega

/-- What is not too large is rounded to a finite number. -/
theorem isFinite_ofRatio (negative : Bool) {num den : Nat} (hden : 0 < den)
    (hlt : (num : ℚ) / den < double.middle (double.infinity - 1)) :
    (ofRatio negative num den).isFinite = true := by
  rw [isFinite, magnitude_ofRatio, decide_eq_true_eq]
  have hinfinity := infinity_double
  rcases Nat.eq_zero_or_pos num with rfl | hnum
  · rw [BinaryFormat.round, if_pos rfl]
    omega
  · obtain ⟨g, hg, hround⟩ := roundsTo_round (f := double) (by decide) hnum hden
    have hle := hg.lt_of_lt hlt
    omega

/-- The rounding of what has few enough bits is exact. -/
theorem Rounds.abs_eq {q : ℚ} {x : Binary64} (hx : Rounds q x) (hq : ∃ g, double.value g = q) :
    x.abs = q := by
  obtain ⟨g, rfl⟩ := hq
  rw [abs, hx.roundsTo.unique (roundsTo_value g)]

/-- The rounding of an ordinary number is off by one part in `2^53` at most. -/
theorem Rounds.abs_sub_le {q : ℚ} {x : Binary64} (hx : Rounds q x) (hq : Ordinary q) :
    |q - x.abs| ≤ x.abs / 2 ^ 53 :=
  hx.roundsTo.abs_sub_le_mul (by decide) (hx.roundsTo.step_le hq.1)

theorem rounds_mul {x y : Binary64} (hx : x.isNegative = false) (hy : y.isNegative = false)
    (hordinary : Ordinary (x.abs * y.abs)) : Rounds (x.abs * y.abs) (x.mul y) := by
  rw [mul, hx, hy]
  refine rounds_ofRatio (Nat.mul_pos x.ratio_pos y.ratio_pos) ?_ hordinary
  rw [← ratio_eq x, ← ratio_eq y, div_mul_div_comm, Nat.cast_mul, Nat.cast_mul]

theorem rounds_div {x y : Binary64} (hx : x.isNegative = false) (hy : y.isNegative = false)
    (hpos : 0 < y.abs) (hordinary : Ordinary (x.abs / y.abs)) :
    Rounds (x.abs / y.abs) (x.div y) := by
  have hratio : 0 < y.ratio.1 := by
    by_contra hzero
    simp [← ratio_eq, show y.ratio.1 = 0 by omega] at hpos
  rw [div, hx, hy]
  refine rounds_ofRatio (Nat.mul_pos x.ratio_pos hratio) ?_ hordinary
  rw [← ratio_eq x, ← ratio_eq y, div_div_div_eq, Nat.cast_mul, Nat.cast_mul]

/-- A number that is not zero, read as one with fewer bits. -/
theorem toBinary32_eq {x : Binary64} {g : Nat} (hpos : 0 < x.abs)
    (hround : single.RoundsTo x.abs g) (hg : g ≤ single.infinity) :
    x.toBinary32 = Binary32.ofParts x.isNegative g := by
  have hratio : 0 < x.ratio.1 := by
    by_contra hzero
    simp [← ratio_eq, show x.ratio.1 = 0 by omega] at hpos
  rw [← ratio_eq] at hround
  rw [toBinary32, Binary32.ofRatio, round_eq (by decide) hratio x.ratio_pos hround,
    Nat.min_eq_right hg]

@[simp]
theorem magnitude_neg {x : Binary64} (hx : x.isFinite = true) : x.neg.magnitude = x.magnitude :=
  magnitude_ofParts _ (of_decide_eq_true hx).le

@[simp]
theorem isNegative_neg {x : Binary64} (hx : x.isFinite = true) :
    x.neg.isNegative = !x.isNegative :=
  isNegative_ofParts _ (of_decide_eq_true hx).le

theorem magnitude_signed {x : Binary64} (negative : Bool) (hx : x.isFinite = true) :
    (if negative then x.neg else x).magnitude = x.magnitude := by
  cases negative <;> simp [hx]

theorem isNegative_signed {x : Binary64} (negative : Bool) (hx : x.isFinite = true)
    (hsign : x.isNegative = false) :
    (if negative then x.neg else x).isNegative = negative := by
  cases negative <;> simp [hx, hsign]

end Binary64

end GrpcContract.Number
