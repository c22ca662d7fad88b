import GrpcContract.Proofs.DecimalReading
import GrpcContract.Proofs.SpelledNumbers

/-!
# Shortest decimals of 64-bit numbers, read back

The text of every finite 64-bit number is read as a finite number. It is the same number if the text
has few digits and a small power of ten; else it can be a neighbour, and it is hardly farther away
unless the number is tiny.
-/

namespace GrpcContract.Number

open BinaryFormat Binary64

variable {g n : Nat} {e : Int}

/-! ### What the text of a number spells -/

theorem spelled_digits_lt (hspells : Layout.json64.Spells double (g + 1) n e) : n < 2 ^ 64 := by
  obtain ⟨-, -, d, -, -, hdigits, hlaid⟩ := hspells.roundsTo (f := double) (by decide) (by decide)
  have hprecision : double.precision + 7 = 60 := rfl
  rw [hprecision] at hdigits
  rcases hlaid with ⟨rfl, -⟩ | ⟨zeros, hzeros, rfl, -, hposition⟩
  · have hle := d.digits_stripped_le
    omega
  · have hlt := Decimal.digits_mul_pow_lt hzeros (hposition (-5) 15 rfl)
    exact hlt.trans (by decide)

/-- The greatest numbers are read as themselves or as the next. -/
theorem reading_top (hg : double.infinity - 4 < g) (hfinite : g < double.infinity)
    (hspells : Layout.json64.Spells double g n e) :
    e.natAbs ≤ 308 ∧ (reading n e).isFinite = true ∧
      ((reading n e).magnitude = g ∨ (reading n e).magnitude = g + 1) := by
  obtain ⟨hzero, -⟩ | ⟨-, hlaid⟩ := hspells
  · omega
  have hcases : g = double.infinity - 1 ∨ g = double.infinity - 2 ∨ g = double.infinity - 3 := by
    omega
  have hshortest : double.shortest .toEven (double.infinity - 1) = ⟨17976931348623157, 292⟩ ∧
      double.shortest .toEven (double.infinity - 2) = ⟨17976931348623155, 292⟩ ∧
      double.shortest .toEven (double.infinity - 3) = ⟨17976931348623153, 292⟩ := by
    decide +kernel
  rw [show Layout.json64.tie = .toEven from rfl] at hlaid
  have hplain {d : Decimal} (hlarge : ¬ d.parts.2 ≤ 15) (hlaid : d.LaidOut Layout.json64 n e) :
      n = d.stripped.digits ∧ e = d.stripped.exponent :=
    hlaid.resolve_right fun ⟨_, _, _, _, hposition⟩ => hlarge (hposition (-5) 15 rfl)
  rcases hcases with rfl | rfl | rfl
  · rw [hshortest.1] at hlaid
    obtain ⟨rfl, rfl⟩ := hplain (by decide) hlaid
    decide +kernel
  · rw [hshortest.2.1] at hlaid
    obtain ⟨rfl, rfl⟩ := hplain (by decide) hlaid
    decide +kernel
  · rw [hshortest.2.2] at hlaid
    obtain ⟨rfl, rfl⟩ := hplain (by decide) hlaid
    decide +kernel

theorem two_pow_lt_ten_pow : (2 : ℚ) ^ (1026 : Int) < 10 ^ (309 : Int) := by
  have hplaces : ((2 : ℚ) ^ 255) ^ 4 * 2 ^ 6 = 2 ^ (1026 : Int) := by
    rw [← pow_mul, ← pow_add, ← zpow_natCast]
    norm_num
  calc (2 : ℚ) ^ (1026 : Int) = (2 ^ 255) ^ 4 * 2 ^ 6 := hplaces.symm
    _ < (2 ^ 255) ^ 4 * ((5 / 3) ^ 4 * 10) := by
      gcongr
      norm_num
    _ = (5 / 3 * 2 ^ 255) ^ 4 * 10 := by rw [mul_pow]; ring
    _ ≤ (10 ^ 77) ^ 4 * 10 := by
      gcongr
      norm_num
    _ = 10 ^ (309 : Int) := by
      rw [← pow_mul, ← pow_succ, ← zpow_natCast]
      norm_num

theorem step_le_of_pow_le (hlarge : (2 : ℚ) ^ (-960 : Int) ≤ double.value g) : double.step ≤ g := by
  rw [← (strictMono_value (f := double)).le_iff_le, value_step]
  exact (zpow_le_zpow_right₀ (by norm_num) (by norm_num)).trans hlarge

theorem exponent_le_of_le_middle {n : ℚ} (hone : 1 ≤ n)
    (hhigh : n * 10 ^ e ≤ double.middle (double.infinity - 4)) : e ≤ 308 := by
  by_contra hlarge
  have hpow : (10 : ℚ) ^ (309 : Int) ≤ 10 ^ e := zpow_le_zpow_right₀ (by norm_num) (by omega)
  have hlimit : double.middle (double.infinity - 4) ≤ 2 ^ (1026 : Int) := by
    rw [middle_before_top, show (1026 : Int) = 56 + 970 by norm_num, zpow_add₀ (by norm_num)]
    gcongr
    norm_num
  have hfirst : (10 : ℚ) ^ e ≤ n * 10 ^ e := le_mul_of_one_le_left (by positivity) hone
  exact absurd (hpow.trans (hfirst.trans (hhigh.trans hlimit))) (not_le.mpr two_pow_lt_ten_pow)

theorem le_exponent_of_pow_le {n : ℚ} (hn : n ≤ 2 ^ (64 : Int))
    (hlow : (2 : ℚ) ^ (-961 : Int) ≤ n * 10 ^ e) : -308 ≤ e := by
  by_contra hsmall
  have hpow : (10 : ℚ) ^ e ≤ 10 ^ (-309 : Int) := zpow_le_zpow_right₀ (by norm_num) (by omega)
  have htiny : (10 : ℚ) ^ (-309 : Int) < 2 ^ (-1026 : Int) := by
    rw [zpow_neg, zpow_neg]
    exact inv_strictAnti₀ (by positivity) two_pow_lt_ten_pow
  have hproduct : n * 10 ^ e < 2 ^ (-961 : Int) :=
    calc n * 10 ^ e ≤ 2 ^ (64 : Int) * 10 ^ (-309 : Int) := by gcongr
      _ < 2 ^ (64 : Int) * 2 ^ (-1026 : Int) := by gcongr
      _ = 2 ^ (-962 : Int) := by rw [← zpow_add₀ (by norm_num)]; norm_num
      _ ≤ 2 ^ (-961 : Int) := zpow_le_zpow_right₀ (by norm_num) (by norm_num)
  exact absurd hlow (not_le.mpr hproduct)

/-- A decimal that is neither tiny nor next to the greatest number can be read through a power of
ten that exists. -/
theorem readable_of_spelled (hg : g + 1 ≤ double.infinity - 4)
    (hlow : (2 : ℚ) ^ (-960 : Int) ≤ double.value (g + 1) ∨ 0 ≤ e)
    (hspells : Layout.json64.Spells double (g + 1) n e) : Readable n e := by
  obtain ⟨hpos, hround, -⟩ := hspells.roundsTo (f := double) (by decide) (by decide)
  have hdigits := spelled_digits_lt hspells
  have hone : (1 : ℚ) ≤ n := by exact_mod_cast hpos
  have hhigh : (n * 10 ^ e : ℚ) ≤ double.middle (double.infinity - 4) :=
    hround.below.trans (strictMono_middle.monotone hg)
  have hlow' : (2 : ℚ) ^ (-961 : Int) ≤ n * 10 ^ e := by
    rcases hlow with hlow | hwhole
    · have hclose := abs_le.mp (hround.abs_sub_le_mul (by decide) (step_le_of_pow_le hlow))
      have hprecision : double.precision = 53 := rfl
      rw [hprecision] at hclose
      rw [show (-961 : Int) = -960 - 1 by norm_num, zpow_sub_one₀ (by norm_num)]
      have hvalue : 0 < double.value (g + 1) := value_pos (Nat.succ_pos g)
      linarith
    · calc (2 : ℚ) ^ (-961 : Int) ≤ 1 := zpow_le_one_of_nonpos₀ (by norm_num) (by norm_num)
        _ ≤ n * 10 ^ e := one_le_mul_of_one_le_of_one_le hone (one_le_zpow₀ (by norm_num) hwhole)
  refine ⟨hpos, hdigits, ?_, ?_, hhigh⟩
  · have hupper := exponent_le_of_le_middle hone hhigh
    have hlower := le_exponent_of_pow_le (by exact_mod_cast hdigits.le) hlow'
    omega
  · exact (zpow_le_zpow_right₀ (by norm_num) (by norm_num)).trans hlow'

/-! ### The number that is read -/

/-- Neighbours of a number with all places are hardly farther away than one part in `2^52`. -/
theorem place_le_value (hnormal : double.step ≤ g) :
    (2 : ℚ) ^ double.exponent g ≤ double.value g / 2 ^ 52 := by
  have hsignificand : (2 ^ 52 : ℚ) ≤ double.significand g := by
    have hle : double.step ≤ double.significand g := by
      rw [significand, if_neg (by omega)]
      exact Nat.le_add_left ..
    exact_mod_cast hle
  rw [value, le_div_iff₀ (by norm_num), mul_comm]
  gcongr

/-- A decimal that can be read through a power of ten that exists is read as a number close to the
one that it is written for. -/
theorem abs_reading_sub_value_le (hlarge : (2 : ℚ) ^ (-960 : Int) ≤ double.value (g + 1))
    (hn : Readable n e) (hspells : Layout.json64.Spells double (g + 1) n e) :
    |(reading n e).abs - double.value (g + 1)| ≤ double.value (g + 1) / 2 ^ 50 := by
  obtain ⟨-, hround, -⟩ := hspells.roundsTo (f := double) (by decide) (by decide)
  have hclose := abs_le.mp (hround.abs_sub_le_mul (by decide) (step_le_of_pow_le hlarge))
  have hread := abs_le.mp (abs_reading_sub_le_of_readable hn)
  have hprecision : double.precision = 53 := rfl
  rw [hprecision] at hclose
  have hvalue : 0 < double.value (g + 1) := value_pos (Nat.succ_pos g)
  rw [abs_le]
  constructor <;> linarith

/-- What the text of a 64-bit number is read as. -/
structure ReadsDouble (l : Literal) (x y : Binary64) : Prop where
  read : l.scale? = some y
  isNegative : y.isNegative = x.isNegative
  eq_of_few : l.digits < 2 ^ 53 → l.scaleExponent.natAbs ≤ 22 → y = x
  close : (2 : ℚ) ^ (-960 : Int) ≤ x.abs → |y.abs - x.abs| ≤ x.abs / 2 ^ 50

section ReadsDouble

variable {x : Binary64} {l : Literal}

theorem readsDouble_reading (hg : x.magnitude = g + 1) (hsign : l.negative = x.isNegative)
    (hspells : Layout.json64.Spells double (g + 1) l.digits l.scaleExponent)
    (he : l.scaleExponent.natAbs ≤ 308)
    (hfinite : (reading l.digits l.scaleExponent).isFinite = true)
    (hclose : (2 : ℚ) ^ (-960 : Int) ≤ double.value (g + 1) →
      |(reading l.digits l.scaleExponent).abs - double.value (g + 1)| ≤
        double.value (g + 1) / 2 ^ 50) : ∃ y, ReadsDouble l x y := by
  obtain ⟨hpos, hround, -⟩ := hspells.roundsTo (f := double) (by decide) (by decide)
  have hmagnitude := magnitude_signed l.negative hfinite
  have hnegative := isNegative_signed l.negative hfinite (isNegative_reading ..)
  refine ⟨_, Literal.scale?_eq hpos (spelled_digits_lt hspells) he hfinite, hnegative.trans hsign,
    fun hfew hsmall => ?_, fun hlarge => ?_⟩
  · refine eq_of_magnitude_eq (hnegative.trans hsign) ?_
    rw [hmagnitude, hg]
    exact (roundsTo_reading hpos hfew hsmall).unique hround
  · rw [Binary64.abs, hg] at hlarge
    rw [Binary64.abs, Binary64.abs, hmagnitude, hg]
    exact hclose hlarge

/-- The text of every finite 64-bit number is read as a number. -/
theorem exists_readsDouble (hfinite : x.isFinite = true) (hsign : l.negative = x.isNegative)
    (hspells : Layout.json64.Spells double x.magnitude l.digits l.scaleExponent) :
    ∃ y, ReadsDouble l x y := by
  have hlt : x.magnitude < double.infinity := of_decide_eq_true hfinite
  cases hg : x.magnitude with
  | zero =>
      rw [hg] at hspells
      obtain ⟨-, hzero, -⟩ | ⟨hpos, -⟩ := hspells
      · have heq : Binary64.ofParts l.negative 0 = x := by
          rw [hsign, ← hg, x.ofParts_magnitude]
        refine ⟨x, heq ▸ l.scale?_eq_zero hzero, rfl, fun _ _ => rfl, fun _ => ?_⟩
        rw [sub_self, abs_zero, Binary64.abs, hg, value_zero, zero_div]
      · omega
  | succ g =>
      rw [hg] at hspells hlt
      obtain ⟨hpos, -⟩ := hspells.roundsTo (f := double) (by decide) (by decide)
      by_cases htop : double.infinity - 4 < g + 1
      · obtain ⟨he, hread, hmagnitude⟩ := reading_top htop hlt hspells
        refine readsDouble_reading hg hsign hspells he hread fun hlarge => ?_
        rw [Binary64.abs]
        have hvalue : 0 < double.value (g + 1) := value_pos (Nat.succ_pos g)
        rcases hmagnitude with hsame | hnext
        · rw [hsame, sub_self, abs_zero]
          positivity
        · rw [hnext, value_succ, add_sub_cancel_left, abs_of_pos (by positivity)]
          have hplace := place_le_value (step_le_of_pow_le hlarge)
          linarith
      · by_cases hread : Readable l.digits l.scaleExponent
        · exact readsDouble_reading hg hsign hspells hread.exponent
            (isFinite_reading_of_readable hread) fun hlarge =>
              abs_reading_sub_value_le hlarge hread hspells
        · have he : l.scaleExponent < 0 := by
            by_contra hwhole
            exact hread (readable_of_spelled (by omega) (.inr (by omega)) hspells)
          obtain ⟨y, hy, hnegative⟩ :=
            Literal.exists_scale?_of_neg hpos (spelled_digits_lt hspells) he
          refine ⟨y, hy, hnegative.trans hsign, fun hfew hsmall => ?_, fun hlarge => ?_⟩
          · exact absurd (readable_of_few hpos hfew (hsmall.trans (by decide))) hread
          · rw [Binary64.abs, hg] at hlarge
            exact absurd (readable_of_spelled (by omega) (.inl hlarge) hspells) hread

end ReadsDouble

end GrpcContract.Number
