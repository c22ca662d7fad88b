import GrpcContract.Proofs.FloatValues

/-!
# Decimals read through a power of ten

A literal whose digits fit 64 bits is read as its digits times or divided by one power of ten. The
digits are exact if they fit 53 bits and rounded if not, the power is rounded, and so is the result:
the number read is off by hardly more than a part in `2^53` for each of them. Up to `10^22` the
powers are exact as well, and a literal with few digits is read as the nearest number.
-/

namespace GrpcContract.Number

open BinaryFormat

/-! ### The digits that are read -/

namespace Literal

theorem le_foldl_digits (n : Nat) (cs : List Char) :
    n ≤ cs.foldl (fun n c => 10 * n + (c.toNat - '0'.toNat)) n := by
  induction cs generalizing n with
  | nil => exact Nat.le_refl n
  | cons c cs ih => exact (show n ≤ 10 * n + (c.toNat - '0'.toNat) by omega).trans (ih _)

/-- Digits that make up a number below `2^64` are all taken. -/
theorem absorb_of_lt {n : Nat} {cs : List Char}
    (hlt : cs.foldl (fun n c => 10 * n + (c.toNat - '0'.toNat)) n < 0x10000000000000000) :
    absorb n cs = (cs.foldl (fun n c => 10 * n + (c.toNat - '0'.toNat)) n, []) := by
  induction cs generalizing n with
  | nil => rfl
  | cons c cs ih =>
      rw [List.foldl_cons] at hlt ⊢
      have hnext : 10 * n + (c.toNat - '0'.toNat) < 0x10000000000000000 :=
        (le_foldl_digits _ cs).trans_lt hlt
      simp only [absorb, if_pos hnext, ih hlt]

theorem leading_of_lt {l : Literal} (hlt : l.digits < 0x10000000000000000) :
    l.leading = (l.digits, l.scaleExponent) := by
  rw [digits, Text.natOfDigits, List.foldl_append] at hlt
  have hwhole := absorb_of_lt ((le_foldl_digits _ l.fraction).trans_lt hlt)
  rw [leading, hwhole]
  simp only [absorb_of_lt hlt]
  simp [digits, scaleExponent, Text.natOfDigits]

theorem descend_of_le (n : Nat) (x : Binary64) {e : Int} (he : -308 ≤ e) :
    descend n x e = (x, e) := by
  cases n with
  | zero => rfl
  | succ n => rw [descend, if_neg (by omega)]

end Literal

/-! ### One power of ten -/

/-- An integer times a power of ten, as it is read. -/
def reading (n : Nat) (e : Int) : Binary64 :=
  if 0 ≤ e then (Binary64.ofInt n).mul (Literal.power e.toNat)
  else (Binary64.ofInt n).div (Literal.power (-e).toNat)

/-! ### Numbers within a part of each other -/

/-- A number `v` is the number `x`, but for a part `δ` of `x`. -/
structure Within (δ v x : ℚ) : Prop where
  low : (1 - δ) * x ≤ v
  high : v ≤ (1 + δ) * x

section Within

variable {δ v w x y : ℚ}

theorem Within.pos (hv : Within δ v x) (hδ : 0 ≤ δ) (hpos : 0 < v) : 0 < x :=
  (mul_pos_iff_of_pos_left (by linarith)).mp (hpos.trans_le hv.high)

theorem Within.eq (hv : Within 0 v x) : x = v := by
  have hlow := hv.low
  have hhigh := hv.high
  linarith

/-- What is off in two factors is off in their product by hardly more than both parts together. -/
theorem abs_mul_sub_le (hδ : δ = 0 ∨ δ = 1 / 2 ^ 53) (hv : Within δ v x)
    (hw : Within (1 / 2 ^ 53) w y) (hvpos : 0 < v) (hwpos : 0 < w) :
    |x * y - v * w| ≤ 33 / 32 * (δ + 1 / 2 ^ 53) * (v * w) := by
  have hy := hw.pos (by norm_num) hwpos
  have hbelow : (1 - δ) * (1 - 1 / 2 ^ 53) * (x * y) ≤ v * w := by
    rw [mul_mul_mul_comm]
    exact mul_le_mul hv.low hw.low (by linarith) hvpos.le
  have habove : v * w ≤ (1 + δ) * (1 + 1 / 2 ^ 53) * (x * y) := by
    rw [mul_mul_mul_comm]
    exact mul_le_mul hv.high hw.high hwpos.le (hvpos.le.trans hv.high)
  have hpos : 0 < v * w := mul_pos hvpos hwpos
  generalize x * y = q at *
  generalize v * w = u at *
  rw [abs_le]
  rcases hδ with rfl | rfl <;> constructor <;> linarith

theorem abs_div_sub_le (hδ : δ = 0 ∨ δ = 1 / 2 ^ 53) (hv : Within δ v x)
    (hw : Within (1 / 2 ^ 53) w y) (hvpos : 0 < v) (hwpos : 0 < w) :
    |x / y - v / w| ≤ 33 / 32 * (δ + 1 / 2 ^ 53) * (v / w) := by
  have hy := hw.pos (by norm_num) hwpos
  have hbelow : (1 - δ) * (x / y) ≤ (1 + 1 / 2 ^ 53) * (v / w) := by
    rw [← mul_div_assoc, ← mul_div_assoc, div_le_div_iff₀ hy hwpos]
    calc (1 - δ) * x * w ≤ v * ((1 + 1 / 2 ^ 53) * y) :=
          mul_le_mul hv.low hw.high hwpos.le hvpos.le
      _ = (1 + 1 / 2 ^ 53) * v * y := by ring
  have habove : (1 - 1 / 2 ^ 53) * (v / w) ≤ (1 + δ) * (x / y) := by
    rw [← mul_div_assoc, ← mul_div_assoc, div_le_div_iff₀ hwpos hy]
    calc (1 - 1 / 2 ^ 53) * v * y = v * ((1 - 1 / 2 ^ 53) * y) := by ring
      _ ≤ (1 + δ) * x * w := mul_le_mul hv.high hw.low (by linarith) (hvpos.le.trans hv.high)
  have hpos : 0 < v / w := div_pos hvpos hwpos
  generalize x / y = q at *
  generalize v / w = u at *
  rw [abs_le]
  rcases hδ with rfl | rfl <;> constructor <;> linarith

end Within

namespace Binary64

theorem ordinary_natCast {n : Nat} (hpos : 0 < n)
    (hn : (n : ℚ) < double.middle (double.infinity - 1)) : Ordinary n := by
  have hone : (1 : ℚ) ≤ n := by exact_mod_cast hpos
  refine ⟨?_, hn⟩
  rw [value_step]
  calc (2 : ℚ) ^ (-1022 : Int) ≤ 2 ^ (0 : Int) := zpow_le_zpow_right₀ (by norm_num) (by norm_num)
    _ = 1 := zpow_zero 2
    _ ≤ n := hone

theorem lt_middle_greatest {n : Nat} (hn : n < 2 ^ 64) :
    (n : ℚ) < double.middle (double.infinity - 1) := by
  have hlt : (n : ℚ) < 2 ^ (64 : Int) := by exact_mod_cast hn
  exact (hlt.le.trans (zpow_le_zpow_right₀ (by norm_num) (by norm_num))).trans_lt
    pow_lt_middle_greatest

theorem rounds_ofInt {n : Nat} (hpos : 0 < n) (hn : n < 2 ^ 64) : Rounds n (ofInt n) := by
  have hsign : decide ((n : Int) < 0) = false := by simp
  rw [ofInt, hsign, Int.natAbs_natCast]
  exact rounds_ofRatio Nat.one_pos (by simp) (ordinary_natCast hpos (lt_middle_greatest hn))

theorem abs_ofInt {n : Nat} (hpos : 0 < n) (hn : n < 2 ^ 53) : (ofInt n).abs = n := by
  refine (rounds_ofInt hpos (hn.trans (by norm_num))).abs_eq ?_
  simpa using exists_value_eq (f := double) (m := n) (e := 0) hn.le (by decide)

/-- The rounding of an ordinary number lies within one part in `2^53` of it. -/
theorem Rounds.within {q : ℚ} {x : Binary64} (hx : Rounds q x) (hq : Ordinary q) :
    Within (1 / 2 ^ 53) q x.abs := by
  have herror := abs_le.mp (hx.abs_sub_le hq)
  constructor <;> linarith

end Binary64

open Binary64 Literal

/-- The powers of ten that exist are finite numbers. -/
theorem ordinary_pow_ten {k : Nat} (hk : k ≤ 308) : Ordinary (10 ^ k) := by
  have hplaces : ((2 : ℚ) ^ 255) ^ 4 = 2 ^ 50 * 2 ^ (970 : Int) := by
    rw [← pow_mul, ← zpow_natCast, ← zpow_natCast, ← zpow_add₀ (by norm_num)]
    norm_num
  have hlt : (10 : ℚ) ^ k < double.middle (double.infinity - 1) := by
    calc (10 : ℚ) ^ k ≤ 10 ^ (77 * 4) := pow_le_pow_right₀ (by norm_num) hk
      _ = (10 ^ 77) ^ 4 := pow_mul 10 77 4
      _ ≤ (7 / 4 * 2 ^ 255) ^ 4 := by
        gcongr
        norm_num
      _ = (7 / 4) ^ 4 * 2 ^ 50 * 2 ^ (970 : Int) := by rw [mul_pow, hplaces, mul_assoc]
      _ < (2 ^ 54 - 1) * 2 ^ (970 : Int) := by
        gcongr
        norm_num
      _ = double.middle (double.infinity - 1) := middle_greatest.symm
  exact_mod_cast ordinary_natCast (n := 10 ^ k) (Nat.pow_pos (by decide)) (by exact_mod_cast hlt)

theorem rounds_power {k : Nat} (hk : k ≤ 308) : Rounds (10 ^ k) (power k) :=
  rounds_ofRatio Nat.one_pos (by simp) (ordinary_pow_ten hk)

theorem abs_power {k : Nat} (hk : k ≤ 22) : (power k).abs = 10 ^ k := by
  refine (rounds_power (by omega)).abs_eq ?_
  have hfive : 5 ^ k ≤ 2 * double.step :=
    (Nat.pow_le_pow_right (by decide) hk).trans (by decide)
  obtain ⟨g, hg⟩ := exists_value_eq (f := double) (e := k) hfive
    ((show double.minExp ≤ 0 by decide).trans (by omega))
  refine ⟨g, hg.trans ?_⟩
  rw [show (10 : ℚ) = 5 * 2 by norm_num, mul_pow]
  push_cast
  rw [zpow_natCast]

/-- A decimal that can be read through a power of ten that exists, and is not beyond the greatest
number or next to it. -/
structure Readable (n : Nat) (e : Int) : Prop where
  pos : 0 < n
  digits : n < 2 ^ 64
  exponent : e.natAbs ≤ 308
  low : (2 : ℚ) ^ (-1000 : Int) ≤ n * 10 ^ e
  high : (n * 10 ^ e : ℚ) ≤ double.middle (double.infinity - 4)

theorem middle_before_top :
    double.middle (double.infinity - 4) = (2 ^ 54 - 7) * 2 ^ (970 : Int) := by
  have hsignificand : double.significand (double.infinity - 4) = 2 ^ 53 - 4 := by decide
  rw [middle_top (by decide), hsignificand]
  norm_num

/-- What is close to a readable decimal is an ordinary number. -/
theorem Readable.ordinary {n : Nat} {e : Int} (hn : Readable n e) {q : ℚ}
    (hclose : |q - n * 10 ^ e| ≤ 33 / 2 ^ 57 * (n * 10 ^ e)) : Ordinary q := by
  obtain ⟨hlow, hhigh⟩ := abs_le.mp hclose
  have hplace : (0 : ℚ) < 2 ^ (970 : Int) := by positivity
  have hlimit := hn.high
  rw [middle_before_top] at hlimit
  refine ⟨?_, ?_⟩
  · have hsmall : (2 : ℚ) ^ (-1022 : Int) ≤ 2 ^ (-1000 - 1 : Int) :=
      zpow_le_zpow_right₀ (by norm_num) (by norm_num)
    rw [zpow_sub_one₀ (by norm_num)] at hsmall
    rw [value_step]
    linarith [hn.low]
  · rw [middle_greatest]
    generalize (2 : ℚ) ^ (970 : Int) = place at *
    linarith

/-- What is rounded to make the number read: it lies about as close to the decimal as the digits and
the power of ten are to what they are rounded to, and is the decimal itself where both are exact. -/
theorem exists_rounds_reading {n : Nat} {e : Int} {δ : ℚ} (hn : Readable n e)
    (hδ : δ = 0 ∨ δ = 1 / 2 ^ 53) (hdigits : Within δ n (ofInt n).abs) :
    ∃ q, Rounds q (reading n e) ∧ Ordinary q ∧
      |q - n * 10 ^ e| ≤ 33 / 32 * (δ + 1 / 2 ^ 53) * (n * 10 ^ e) ∧
      (δ = 0 → e.natAbs ≤ 22 → q = n * 10 ^ e) := by
  have hsign := (rounds_ofInt hn.pos hn.digits).isNegative
  have hpos : (0 : ℚ) < n := by exact_mod_cast hn.pos
  have hrounds := rounds_power hn.exponent
  have hpower := hrounds.within (ordinary_pow_ten hn.exponent)
  have hexact : e.natAbs ≤ 22 → (power e.natAbs).abs = 10 ^ e.natAbs := abs_power
  have hordinary {q : ℚ} (hclose : |q - n * 10 ^ e| ≤ 33 / 32 * (δ + 1 / 2 ^ 53) * (n * 10 ^ e)) :
      Ordinary q := by
    refine hn.ordinary (hclose.trans (mul_le_mul_of_nonneg_right ?_ (by positivity)))
    rcases hδ with rfl | rfl <;> norm_num
  have hsame (hzero : δ = 0) : (ofInt n).abs = n := (hzero ▸ hdigits).eq
  generalize hk : e.natAbs = k at *
  unfold reading
  split
  · obtain rfl : e = k := by omega
    rw [Int.toNat_natCast]
    rw [zpow_natCast] at hordinary ⊢
    have hclose := abs_mul_sub_le hδ hdigits hpower hpos (by positivity)
    exact ⟨_, rounds_mul hsign hrounds.isNegative (hordinary hclose), hordinary hclose, hclose,
      fun hzero hsmall => by rw [hsame hzero, hexact hsmall]⟩
  · obtain rfl : e = -k := by omega
    rw [neg_neg, Int.toNat_natCast]
    rw [zpow_neg, zpow_natCast, ← div_eq_mul_inv] at hordinary ⊢
    have hclose := abs_div_sub_le hδ hdigits hpower hpos (by positivity)
    have hplace := hpower.pos (by norm_num) (by positivity)
    exact ⟨_, rounds_div hsign hrounds.isNegative hplace (hordinary hclose), hordinary hclose,
      hclose, fun hzero hsmall => by rw [hsame hzero, hexact hsmall]⟩

theorem readable_of_few {n : Nat} {e : Int} (hpos : 0 < n) (hn : n < 2 ^ 53)
    (he : e.natAbs ≤ 60) : Readable n e := by
  have hone : (1 : ℚ) ≤ n := by exact_mod_cast hpos
  have hlt : (n : ℚ) ≤ 2 ^ (53 : Int) := by exact_mod_cast hn.le
  have hlow : (2 : ℚ) ^ (-200 : Int) ≤ 10 ^ e :=
    calc (2 : ℚ) ^ (-200 : Int) ≤ 10 ^ (-60 : Int) := by norm_num
      _ ≤ 10 ^ e := zpow_le_zpow_right₀ (by norm_num) (by omega)
  have hhigh : (10 : ℚ) ^ e ≤ 2 ^ (200 : Int) :=
    calc (10 : ℚ) ^ e ≤ 10 ^ (60 : Int) := zpow_le_zpow_right₀ (by norm_num) (by omega)
      _ ≤ 2 ^ (200 : Int) := by norm_num
  refine ⟨hpos, hn.trans (by norm_num), by omega, ?_, ?_⟩
  · calc (2 : ℚ) ^ (-1000 : Int) ≤ 2 ^ (-200 : Int) :=
          zpow_le_zpow_right₀ (by norm_num) (by norm_num)
      _ ≤ 1 * 10 ^ e := by rwa [one_mul]
      _ ≤ n * 10 ^ e := by gcongr
  · rw [middle_before_top]
    calc (n * 10 ^ e : ℚ) ≤ 2 ^ (53 : Int) * 2 ^ (200 : Int) := by gcongr
      _ = 2 ^ (253 : Int) := by rw [← zpow_add₀ (by norm_num)]; norm_num
      _ ≤ 1 * 2 ^ (970 : Int) := by
        rw [one_mul]
        exact zpow_le_zpow_right₀ (by norm_num) (by norm_num)
      _ ≤ (2 ^ 54 - 7) * 2 ^ (970 : Int) := by
        gcongr
        norm_num

/-- The number read from few digits is off by less than the digits and the power of ten together. -/
theorem exists_rounds_reading_of_few {n : Nat} {e : Int} (hpos : 0 < n) (hn : n < 2 ^ 53)
    (he : e.natAbs ≤ 60) : ∃ q, Rounds q (reading n e) ∧ Ordinary q ∧
      |q - n * 10 ^ e| ≤ 33 / 2 ^ 58 * (n * 10 ^ e) ∧ (e.natAbs ≤ 22 → q = n * 10 ^ e) := by
  have hexact := abs_ofInt hpos hn
  obtain ⟨q, hrounds, hordinary, hclose, hsame⟩ := exists_rounds_reading
    (readable_of_few hpos hn he) (.inl rfl) (by rw [hexact]; constructor <;> linarith)
  refine ⟨q, hrounds, hordinary, hclose.trans (le_of_eq ?_), hsame rfl⟩
  ring

/-- The greatest part of a decimal by which the number read from few digits can be off. -/
def tolerance : ℚ :=
  9 / 2 ^ 55

theorem abs_reading_sub_le {n : Nat} {e : Int} (hpos : 0 < n) (hn : n < 2 ^ 53)
    (he : e.natAbs ≤ 60) : |(reading n e).abs - n * 10 ^ e| ≤ tolerance * (n * 10 ^ e) := by
  obtain ⟨q, hrounds, hordinary, hclose, -⟩ := exists_rounds_reading_of_few hpos hn he
  obtain ⟨hlow, hhigh⟩ := abs_le.mp hclose
  obtain ⟨hlow', hhigh'⟩ := abs_le.mp (hrounds.abs_sub_le hordinary)
  have hv := (zpow_pos (by norm_num) _).trans_le (readable_of_few hpos hn he).low
  rw [tolerance, abs_le]
  constructor <;> linarith

/-- The number read from any digits is off by hardly more than three parts in `2^53`. -/
theorem abs_reading_sub_le_of_readable {n : Nat} {e : Int} (hn : Readable n e) :
    |(reading n e).abs - n * 10 ^ e| ≤ 13 / 2 ^ 55 * (n * 10 ^ e) := by
  have hinteger := (rounds_ofInt hn.pos hn.digits).within
    (ordinary_natCast hn.pos (lt_middle_greatest hn.digits))
  obtain ⟨q, hrounds, hordinary, hclose, -⟩ := exists_rounds_reading hn (.inr rfl) hinteger
  obtain ⟨hlow, hhigh⟩ := abs_le.mp hclose
  obtain ⟨hlow', hhigh'⟩ := abs_le.mp (hrounds.abs_sub_le hordinary)
  have hv := (zpow_pos (by norm_num) _).trans_le hn.low
  rw [abs_le]
  constructor <;> linarith

theorem isFinite_reading_of_readable {n : Nat} {e : Int} (hn : Readable n e) :
    (reading n e).isFinite = true := by
  have hinteger := (rounds_ofInt hn.pos hn.digits).within
    (ordinary_natCast hn.pos (lt_middle_greatest hn.digits))
  obtain ⟨q, hrounds, -⟩ := exists_rounds_reading hn (.inr rfl) hinteger
  exact hrounds.isFinite

theorem isNegative_power (k : Nat) : (power k).isNegative = false :=
  isNegative_ofRatio ..

theorem isNegative_div_power {x : Binary64} (hx : x.isNegative = false) (k : Nat) :
    (x.div (power k)).isNegative = false := by
  rw [div, isNegative_ofRatio, hx, isNegative_power]
  rfl

theorem isNegative_reading (n : Nat) (e : Int) : (reading n e).isNegative = false := by
  have hinteger : (ofInt n).isNegative = false := by
    rw [ofInt, isNegative_ofRatio]
    simp
  unfold reading
  split
  · rw [mul, isNegative_ofRatio, hinteger, isNegative_power]
    rfl
  · exact isNegative_div_power hinteger _

/-- A decimal with few digits and a small power of ten is read as the nearest number. -/
theorem roundsTo_reading {n : Nat} {e : Int} (hpos : 0 < n) (hn : n < 2 ^ 53)
    (he : e.natAbs ≤ 22) : double.RoundsTo (n * 10 ^ e) (reading n e).magnitude := by
  obtain ⟨q, hrounds, -, -, hexact⟩ :=
    exists_rounds_reading_of_few hpos hn (he.trans (by decide))
  exact hexact he ▸ hrounds.roundsTo

/-- What is written with few digits is read as itself if it has few enough bits. -/
theorem abs_reading_eq {n : Nat} {e : Int} (hpos : 0 < n) (hn : n < 2 ^ 53) (he : e.natAbs ≤ 22)
    (hvalue : ∃ g, double.value g = n * 10 ^ e) : (reading n e).abs = n * 10 ^ e := by
  obtain ⟨g, hg⟩ := hvalue
  have hround := roundsTo_reading hpos hn he
  rw [← hg] at hround ⊢
  rw [Binary64.abs, hround.unique (roundsTo_value g)]

/-! ### Literals -/

namespace Literal

theorem one_le_abs_power (k : Nat) : 1 ≤ (power k).abs := by
  have hone : double.value (1023 * double.step) = 1 := by
    have hsignificand : (double.significand (1023 * double.step) : ℚ) = 2 ^ (52 : Int) := by
      norm_cast
    have hexponent : double.exponent (1023 * double.step) = -52 := by decide
    rw [value, hsignificand, hexponent, ← zpow_add₀ (by norm_num)]
    norm_num
  have hpow : (1 : ℚ) ≤ (10 ^ k : Nat) := by exact_mod_cast Nat.one_le_pow _ _ (by decide)
  obtain ⟨g, hg, hround⟩ := roundsTo_round (f := double) (by decide)
    (show 0 < 10 ^ k from Nat.pow_pos (by decide)) Nat.one_pos
  rw [Nat.cast_one, div_one] at hg
  have hle : 1023 * double.step ≤ g := by
    by_contra hlt
    have hbelow := hg.below.trans_lt (middle_lt_value g)
    have hmono : double.value (g + 1) ≤ double.value (1023 * double.step) :=
      strictMono_value.monotone (by omega)
    linarith
  have hinfinity : 1023 * double.step ≤ double.infinity := by decide
  have hmagnitude : (power k).magnitude = min double.infinity g :=
    (magnitude_ofRatio ..).trans hround
  rw [Binary64.abs, hmagnitude, ← hone]
  exact strictMono_value.monotone (le_min hinfinity hle)

theorem isFinite_div {x y : Binary64} (hx : x.isFinite = true) (hy : 1 ≤ y.abs) :
    (x.div y).isFinite = true := by
  have hratio : 0 < y.ratio.1 := by
    by_contra hzero
    rw [← ratio_eq, show y.ratio.1 = 0 by omega] at hy
    norm_num at hy
  refine isFinite_ofRatio _ (Nat.mul_pos x.ratio_pos hratio) ?_
  have hquotient : ((x.ratio.1 * y.ratio.2 : Nat) : ℚ) / (x.ratio.2 * y.ratio.1 : Nat) =
      x.abs / y.abs := by
    rw [← ratio_eq x, ← ratio_eq y, div_div_div_eq, Nat.cast_mul, Nat.cast_mul]
  have hmagnitude : x.magnitude < double.infinity := of_decide_eq_true hx
  have habs : x.abs ≤ double.value (double.infinity - 1) :=
    strictMono_value.monotone (by omega)
  have hnonneg : 0 ≤ x.abs := (value_zero (f := double)).symm.le.trans
    (strictMono_value.monotone (Nat.zero_le _))
  rw [hquotient]
  exact (div_le_self hnonneg hy).trans_lt (habs.trans_lt (value_lt_middle _))

/-- Dividing by powers of ten stays within the finite numbers and keeps the exponent negative. -/
theorem descend_of_neg (n : Nat) {x : Binary64} {e : Int} (hfinite : x.isFinite = true)
    (hsign : x.isNegative = false) (he : e < 0) :
    (descend n x e).1.isFinite = true ∧ (descend n x e).1.isNegative = false ∧
      (descend n x e).2 < 0 := by
  induction n generalizing x e with
  | zero => exact ⟨hfinite, hsign, he⟩
  | succ n ih =>
      rw [descend]
      split
      · exact ih (isFinite_div hfinite (one_le_abs_power 308)) (isNegative_div_power hsign 308)
          (by omega)
      · exact ⟨hfinite, hsign, he⟩

/-- Zero is read as zero, under its sign. -/
theorem scale?_eq_zero {l : Literal} (hzero : l.digits = 0) :
    l.scale? = some (Binary64.ofParts l.negative 0) := by
  have hmagnitude : (Binary64.ofInt 0).magnitude = 0 := by decide
  have hfinite : (Binary64.ofInt 0).isFinite = true := by decide
  have hdescend (e : Int) : descend 3 (Binary64.ofInt 0) e = (Binary64.ofInt 0, e) := by
    rw [descend, if_neg fun h => h.2 hmagnitude]
  rw [scale?, leading_of_lt (by omega), hzero, Int.natCast_zero, hdescend]
  simp only [if_pos hmagnitude, Option.filter_some, if_pos hfinite, Option.map_some]
  cases l.negative <;> decide

/-- Only finite numbers are read. -/
theorem isFinite_of_scale? {l : Literal} {y : Binary64} (hread : l.scale? = some y) :
    y.isFinite = true := by
  unfold scale? at hread
  obtain ⟨x, hfilter, rfl⟩ := Option.map_eq_some_iff.mp hread
  have hfinite := (Option.filter_eq_some_iff.mp hfilter).2
  rw [isFinite, magnitude_signed l.negative hfinite]
  exact hfinite

/-- A literal is read as its digits and its power of ten under its sign, if that is finite. -/
theorem scale?_eq {l : Literal} (hpos : 0 < l.digits) (hdigits : l.digits < 2 ^ 64)
    (he : l.scaleExponent.natAbs ≤ 308)
    (hfinite : (reading l.digits l.scaleExponent).isFinite = true) :
    l.scale? = some (if l.negative then (reading l.digits l.scaleExponent).neg
      else reading l.digits l.scaleExponent) := by
  have hmagnitude : (Binary64.ofInt l.digits).magnitude ≠ 0 := by
    intro hzero
    have hwithin := (rounds_ofInt hpos hdigits).within
      (ordinary_natCast hpos (lt_middle_greatest hdigits))
    have habs := hwithin.pos (by norm_num) (by exact_mod_cast hpos)
    rw [Binary64.abs, hzero, value_zero] at habs
    exact lt_irrefl _ habs
  rw [scale?, leading_of_lt (hdigits.trans_eq (by norm_num)), descend_of_le 3 _ (by omega)]
  simp only [if_neg hmagnitude, show ¬ 308 < l.scaleExponent by omega, ↓reduceIte]
  have hread : (if 0 ≤ l.scaleExponent then
        some ((Binary64.ofInt l.digits).mul (power l.scaleExponent.toNat))
      else some ((Binary64.ofInt l.digits).div (power (-l.scaleExponent).toNat))) =
      some (reading l.digits l.scaleExponent) := by
    unfold reading
    split <;> rfl
  rw [hread, Option.filter_some, if_pos hfinite, Option.map_some]

/-- A literal with a negative power of ten is read as a finite number, however small. -/
theorem exists_scale?_of_neg {l : Literal} (hpos : 0 < l.digits) (hdigits : l.digits < 2 ^ 64)
    (he : l.scaleExponent < 0) : ∃ y, l.scale? = some y ∧ y.isNegative = l.negative := by
  have hrounds := rounds_ofInt hpos hdigits
  rw [scale?, leading_of_lt (hdigits.trans_eq (by norm_num))]
  obtain ⟨hfinite, hsign, hneg⟩ :=
    descend_of_neg 3 hrounds.isFinite hrounds.isNegative he
  generalize descend 3 (Binary64.ofInt l.digits) l.scaleExponent = p at *
  obtain ⟨x, e⟩ := p
  simp only at hfinite hsign hneg ⊢
  by_cases hzero : x.magnitude = 0
  · refine ⟨_, ?_, isNegative_signed l.negative hfinite hsign⟩
    rw [if_pos hzero, Option.filter_some, if_pos hfinite, Option.map_some]
  · have hquotient := isFinite_div hfinite (one_le_abs_power (-e).toNat)
    refine ⟨_, ?_, isNegative_signed l.negative hquotient (isNegative_div_power hsign _)⟩
    rw [if_neg hzero, if_neg (by omega), if_neg (by omega), Option.filter_some, if_pos hquotient,
      Option.map_some]

end Literal

end GrpcContract.Number
