import GrpcContract.Proofs.DecimalReading

/-!
# Short decimals near midpoints

A decimal with few digits that is not a midpoint between two 32-bit numbers is farther from every
such midpoint than the reading of the decimal can be off. One decimal is an exception.

For a power of ten `a / b · 2^e`, a decimal `d · 10^k` is near a midpoint where `d · a` is near a
multiple of `b`. Let `q` be the denominator of a convergent of `a / b`. Up to some bound, `d · a`
comes near a multiple of `b` only in the way in which `q · a` does, and so not nearer, in
proportion, than `q · a` is to its multiple.
-/

namespace GrpcContract.Number

open BinaryFormat

/-! ### One denominator for all decimals below a bound -/

/-- The multiple of `b` nearest to `q · a`. -/
def nearestMultiple (a b q : Nat) : Nat :=
  (2 * (q * a) + b) / (2 * b)

/-- How far `q · a` is from the nearest multiple of `b`. -/
def residue (a b q : Nat) : Nat :=
  ((q * a : Int) - nearestMultiple a b q * b).natAbs

/-- Whether, up to a bound, all that comes near a multiple of `b` does so in the way of `q · a`. -/
def Separates (a b bound q : Nat) : Prop :=
  9 * (q * (bound * a)) + 2 ^ 55 * (bound * residue a b q) < 2 ^ 55 * b

instance (a b bound q : Nat) : Decidable (Separates a b bound q) :=
  inferInstanceAs (Decidable (_ < _))

section Separates

variable {a b bound q d m : Nat}

theorem residue_eq (a b q : Nat) :
    (residue a b q : Int) = |(q * a : Int) - nearestMultiple a b q * b| :=
  Int.natCast_natAbs _

theorem Separates.mul_eq (hsep : Separates a b bound q) (hd : d ≤ bound)
    (hnear : 2 ^ 55 * |(d * a : Int) - m * b| ≤ 9 * (d * a)) :
    d * nearestMultiple a b q = m * q := by
  by_contra hne
  have hgap : 1 ≤ |(d * nearestMultiple a b q : Int) - m * q| :=
    Int.one_le_abs (sub_ne_zero.mpr (by exact_mod_cast hne))
  have hsplit : (b : Int) * |(d * nearestMultiple a b q : Int) - m * q| ≤
      q * |(d * a : Int) - m * b| + d * residue a b q := by
    calc (b : Int) * |(d * nearestMultiple a b q : Int) - m * q|
        = |(q * (d * a - m * b) - d * (q * a - nearestMultiple a b q * b) : Int)| := by
          rw [← Nat.abs_cast b, ← abs_mul, Nat.abs_cast]
          ring_nf
      _ ≤ |(q * (d * a - m * b) : Int)| + |(d * (q * a - nearestMultiple a b q * b) : Int)| :=
          abs_sub ..
      _ = q * |(d * a : Int) - m * b| + d * residue a b q := by
          rw [abs_mul, abs_mul, Nat.abs_cast, Nat.abs_cast, residue_eq]
  have hsep : (9 * (q * (bound * a)) + 2 ^ 55 * (bound * residue a b q) : Int) < 2 ^ 55 * b := by
    exact_mod_cast hsep
  have hd : (d : Int) ≤ bound := by exact_mod_cast hd
  have hb : (b : Int) ≤ b * |(d * nearestMultiple a b q : Int) - m * q| :=
    le_mul_of_one_le_right (Int.natCast_nonneg b) hgap
  have hfirst : (q : Int) * (2 ^ 55 * |(d * a : Int) - m * b|) ≤ q * (9 * (bound * a)) :=
    mul_le_mul_of_nonneg_left (hnear.trans (by gcongr)) (Int.natCast_nonneg q)
  have hsecond : (d : Int) * residue a b q ≤ bound * residue a b q := by gcongr
  linarith

/-- The distance from the multiple is in proportion to that of the denominator. -/
theorem Separates.residue_proportion (hsep : Separates a b bound q) (hd : d ≤ bound)
    (hnear : 2 ^ 55 * |(d * a : Int) - m * b| ≤ 9 * (d * a)) :
    q * |(d * a : Int) - m * b| = d * residue a b q := by
  have heq : (d * nearestMultiple a b q : Int) = m * q := by exact_mod_cast hsep.mul_eq hd hnear
  rw [residue_eq, ← Nat.abs_cast q, ← Nat.abs_cast d, ← abs_mul, ← abs_mul, Nat.abs_cast,
    Nat.abs_cast]
  congr 1
  linear_combination (b : Int) * heq

end Separates

/-! ### Powers of ten -/

/-- A quotient and a power of two. -/
structure ScaledRatio where
  num : Nat
  den : Nat
  place : Int

/-- A power of ten as a quotient between one and two and a power of two. -/
def tenAsRatio (k : Int) : ScaledRatio :=
  if 0 ≤ k then
    let power := 10 ^ k.toNat
    ⟨power, 2 ^ power.log2, power.log2⟩
  else
    let power := 10 ^ (-k).toNat
    ⟨2 ^ (power.log2 + 1), power, -(power.log2 + 1)⟩

theorem tenAsRatio_pos (k : Int) : 0 < (tenAsRatio k).num ∧ 0 < (tenAsRatio k).den := by
  unfold tenAsRatio
  split
  · exact ⟨Nat.pow_pos (by decide), Nat.pow_pos (by decide)⟩
  · exact ⟨Nat.pow_pos (by decide), Nat.pow_pos (by decide)⟩

theorem pow_ten_eq (k : Int) :
    (10 : ℚ) ^ k = (tenAsRatio k).num / (tenAsRatio k).den * 2 ^ (tenAsRatio k).place := by
  unfold tenAsRatio
  split
  · obtain ⟨n, rfl⟩ : ∃ n : Nat, k = n := ⟨k.toNat, by omega⟩
    simp only [Int.toNat_natCast, zpow_natCast]
    push_cast
    field_simp
  · obtain ⟨n, rfl⟩ : ∃ n : Nat, k = -n := ⟨(-k).toNat, by omega⟩
    simp only [neg_neg, Int.toNat_natCast, zpow_neg, zpow_natCast]
    rw [← Nat.cast_succ, zpow_natCast]
    push_cast
    field_simp

/-- Goes through the denominators of the convergents of `a / b`, by the Euclidean algorithm, up to
the first that separates. -/
def findDenominator (a b bound : Nat) : Nat → Nat → Nat → Nat → Nat → Nat
  | 0, _, _, _, q => q
  | fuel + 1, u, v, before, q =>
    if Separates a b bound q ∨ v = 0 then q
    else findDenominator a b bound fuel v (u % v) q (u / v * q + before)

/-- Decimals with more digits are well inside the interval of the number that they are found for. -/
def fewDigits : Nat := 2 ^ 24 + 2 ^ 10

/-- A bound for few digits, and for what is near to a multiple with 25 bits. -/
def digitBound (a b : Nat) : Nat :=
  max fewDigits (2 ^ 25 * b / a)

def denominator (k : Int) : Nat :=
  let ⟨a, b, _⟩ := tenAsRatio k
  findDenominator a b (digitBound a b) 60 b (a % b) 0 1

/-- What is known of the decimals with an exponent from a denominator that separates: what is near a
midpoint is the midpoint, or nothing is near one, or only the denominator itself is. -/
def Settles (k : Int) (a b q : Nat) : Prop :=
  Separates a b (digitBound a b) q ∧ 0 < q ∧
    (residue a b q = 0 ∧ k.natAbs ≤ 10 ∨
      9 * (q * a) < 2 ^ 55 * residue a b q ∨
      digitBound a b < 2 * q ∧ q.Coprime (nearestMultiple a b q) ∧
        (q % 2 = 1 ∧ fewDigits ≤ q ∨ k = -32 ∧ q = 14077062))

instance (k : Int) (a b q : Nat) : Decidable (Settles k a b q) :=
  inferInstanceAs (Decidable (_ ∧ _))

theorem settles_denominator {k : Int} (hlow : -54 ≤ k) (hhigh : k ≤ 38) :
    Settles k (tenAsRatio k).num (tenAsRatio k).den (denominator k) := by
  have hall : ∀ n ∈ List.range 93, Settles (n - 54) (tenAsRatio (n - 54)).num
      (tenAsRatio (n - 54)).den (denominator (n - 54)) := by
    decide +kernel
  obtain ⟨n, rfl⟩ : ∃ n : Nat, k = n - 54 := ⟨(k + 54).toNat, by omega⟩
  exact hall n (List.mem_range.mpr (by omega))

theorem Settles.near {k : Int} {a b q d m : Nat} (hsettles : Settles k a b q) (hpos : 0 < d)
    (hd : d ≤ digitBound a b) (hnear : 2 ^ 55 * |(d * a : Int) - m * b| ≤ 9 * (d * a)) :
    d * a = m * b ∧ k.natAbs ≤ 10 ∨
      d = q ∧ (q % 2 = 1 ∧ fewDigits ≤ q ∨ k = -32 ∧ q = 14077062) := by
  obtain ⟨hsep, hq, hverdict⟩ := hsettles
  have hresidue := hsep.residue_proportion hd hnear
  rcases hverdict with ⟨hzero, hk⟩ | hfar | ⟨hbound, hcoprime, hlone⟩
  · left
    rw [hzero, Nat.cast_zero, mul_zero, mul_eq_zero, abs_eq_zero, sub_eq_zero] at hresidue
    exact ⟨by exact_mod_cast hresidue.resolve_left (by omega), hk⟩
  · have hd : (0 : Int) < d := by exact_mod_cast hpos
    have hfar : (9 * (q * a) : Int) < 2 ^ 55 * residue a b q := by exact_mod_cast hfar
    have hq : (0 : Int) < q := by exact_mod_cast hq
    have hcontra := mul_lt_mul_of_pos_left hfar hd
    have hnear := mul_le_mul_of_nonneg_left hnear hq.le
    linarith
  · right
    have hdvd : q ∣ d * nearestMultiple a b q := ⟨m, (hsep.mul_eq hd hnear).trans (mul_comm ..)⟩
    obtain ⟨c, rfl⟩ := hcoprime.dvd_of_dvd_mul_right hdvd
    have hc : c < 2 := by
      by_contra hle
      have : q * 2 ≤ q * c := Nat.mul_le_mul_left q (by omega)
      omega
    have hc' : c ≠ 0 := by
      rintro rfl
      simp at hpos
    obtain rfl : c = 1 := by omega
    exact ⟨Nat.mul_one q, hlone⟩

/-- Being near to a multiple, in whole numbers. -/
theorem near_of_le {a b d m : Nat} {e : Int} (hb : 0 < b)
    (hnear : |(d * (a / b * 2 ^ e) - m * 2 ^ e : ℚ)| ≤ tolerance * (d * (a / b * 2 ^ e))) :
    2 ^ 55 * |(d * a : Int) - m * b| ≤ 9 * (d * a) := by
  have hb : (0 : ℚ) < b := by exact_mod_cast hb
  have hplace : (0 : ℚ) < 2 ^ e := by positivity
  have hdiff : (d * (a / b * 2 ^ e) - m * 2 ^ e : ℚ) = (d * a - m * b) * (2 ^ e / b) := by
    field_simp
  have hvalue : (d * (a / b * 2 ^ e) : ℚ) = d * a * (2 ^ e / b) := by
    field_simp
  rw [hdiff, hvalue, abs_mul, abs_of_pos (show (0 : ℚ) < 2 ^ e / b by positivity), ← mul_assoc,
    mul_le_mul_iff_left₀ (by positivity), tolerance, div_mul_eq_mul_div, le_div_iff₀ (by norm_num),
    mul_comm] at hnear
  exact_mod_cast hnear

theorem le_of_near {a b d m : Nat} (ha : 0 < a) (hm : m < 2 ^ 25)
    (hnear : 2 ^ 55 * |(d * a : Int) - m * b| ≤ 9 * (d * a)) : d ≤ 2 ^ 25 * b / a := by
  rw [Nat.le_div_iff_mul_le ha]
  have hle := le_abs_self (d * a - m * b : Int)
  have hproduct : m * b ≤ (2 ^ 25 - 1) * b := Nat.mul_le_mul_right b (by omega)
  zify at hproduct ⊢
  push_cast at hproduct
  omega

theorem Settles.eq_or_lone {k e : Int} {a b q d m : Nat} (hsettles : Settles k a b q) (hb : 0 < b)
    (hpos : 0 < d) (hd : d ≤ digitBound a b)
    (hnear : |(d * (a / b * 2 ^ e) - m * 2 ^ e : ℚ)| ≤ tolerance * (d * (a / b * 2 ^ e))) :
    (d * (a / b * 2 ^ e) = (m * 2 ^ e : ℚ) ∧ k.natAbs ≤ 10) ∨
      d = q ∧ (q % 2 = 1 ∧ fewDigits ≤ q ∨ k = -32 ∧ q = 14077062) := by
  refine (hsettles.near hpos hd (near_of_le hb hnear)).imp_left fun ⟨heq, hk⟩ => ⟨?_, hk⟩
  have hne : (b : ℚ) ≠ 0 := by exact_mod_cast hb.ne'
  have heq : (d * a : ℚ) = m * b := by exact_mod_cast heq
  rw [← mul_assoc, ← mul_div_assoc, heq, mul_div_cancel_right₀ _ hne]

/-- Of the decimals that a denominator leaves, only one with few digits is left, and its double. -/
theorem exception_of_lone {k : Int} {d j q : Nat} (hd : d < fewDigits) (hq : d * 2 ^ j = q)
    (hlone : q % 2 = 1 ∧ fewDigits ≤ q ∨ k = -32 ∧ q = 14077062) :
    k = -32 ∧ (d = 7038531 ∨ d = 14077062) := by
  have hpow : j = 0 ∨ j = 1 ∨ 2 ^ j % 4 = 0 := by
    rcases j with _ | _ | j
    · exact .inl rfl
    · exact .inr (.inl rfl)
    · rw [pow_add]
      omega
  rcases hpow with rfl | rfl | hpow
  · omega
  · omega
  · have hfour : d * 2 ^ j % 4 = 0 := by rw [Nat.mul_mod, hpow]; simp
    omega

/-- A decimal with few digits is a number with 25 bits, or it is farther from it than its reading
can be off; one decimal is an exception. -/
theorem eq_or_tolerance_lt {d m : Nat} {k : Int} (e : Int) (hpos : 0 < d) (hd : d < fewDigits)
    (hlow : -54 ≤ k) (hhigh : k ≤ 38) (hm : m < 2 ^ 25) :
    (d * 10 ^ k = (m * 2 ^ e : ℚ) ∧ k.natAbs ≤ 10) ∨
      tolerance * (d * 10 ^ k) < |d * 10 ^ k - (m * 2 ^ e : ℚ)| ∨
      k = -32 ∧ (d = 7038531 ∨ d = 14077062) := by
  by_cases hfar : tolerance * (d * 10 ^ k) < |d * 10 ^ k - (m * 2 ^ e : ℚ)|
  · exact .inr (.inl hfar)
  obtain ⟨ha, hb⟩ := tenAsRatio_pos k
  have hsettles := settles_denominator hlow hhigh
  have hvalue := pow_ten_eq k
  generalize (tenAsRatio k).num = a at *
  generalize (tenAsRatio k).den = b at *
  generalize (tenAsRatio k).place = place at *
  -- The coarser of the two places is brought to the finer.
  rcases le_total place e with hle | hle
  · obtain ⟨j, rfl⟩ : ∃ j : Nat, e = place + j := ⟨(e - place).toNat, by omega⟩
    have hshift : (m * 2 ^ (place + j) : ℚ) = (m * 2 ^ j : Nat) * 2 ^ place := by
      rw [zpow_add₀ (by norm_num), zpow_natCast]
      push_cast
      ring
    rw [hvalue, hshift] at hfar ⊢
    have hbound := hd.le.trans (Nat.le_max_left fewDigits (2 ^ 25 * b / a))
    exact (hsettles.eq_or_lone hb hpos hbound (not_lt.mp hfar)).imp_right fun ⟨hq, hlone⟩ =>
      .inr (exception_of_lone (j := 0) hd (by rw [pow_zero, mul_one, hq]) hlone)
  · obtain ⟨j, rfl⟩ : ∃ j : Nat, place = e + j := ⟨(place - e).toNat, by omega⟩
    have hshift : (d * (a / b * 2 ^ (e + j)) : ℚ) = (d * 2 ^ j : Nat) * (a / b * 2 ^ e) := by
      rw [zpow_add₀ (by norm_num), zpow_natCast]
      push_cast
      ring
    rw [hvalue, hshift] at hfar ⊢
    have hbound := (le_of_near ha hm (near_of_le hb (not_lt.mp hfar))).trans
      (Nat.le_max_right fewDigits _)
    exact (hsettles.eq_or_lone hb (by positivity) hbound (not_lt.mp hfar)).imp_right
      fun ⟨hq, hlone⟩ => .inr (exception_of_lone hd hq hlone)

end GrpcContract.Number
