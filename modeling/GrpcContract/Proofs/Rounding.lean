import GrpcContract.Proofs.ShortestDigits
import Mathlib

/-!
# Rounding to binary floating-point numbers

The magnitudes of a format stand for rational numbers in increasing order. A rational number rounds
to the one magnitude that it lies nearest to, which is where it lies between the two midpoints
around that magnitude; on a midpoint it rounds to the even one. The rounding of quotients is this
rounding, with the format's infinity in place of what is too large.
-/

namespace GrpcContract.Number

namespace BinaryFormat

variable (f : BinaryFormat)

/-- The number that a magnitude stands for; from infinity on, the one that would come next. -/
def value (g : Nat) : ℚ :=
  f.significand g * 2 ^ f.exponent g

/-- The midpoint between a magnitude and the next. -/
def middle (g : Nat) : ℚ :=
  (f.value g + f.value (g + 1)) / 2

/-- A number lies between the two midpoints around a magnitude, and on one of them only if the
magnitude is even. -/
structure RoundsTo (q : ℚ) (g : Nat) : Prop where
  above : ∀ h, g = h + 1 → f.middle h ≤ q
  below : q ≤ f.middle g
  even_above : ∀ h, g = h + 1 → q = f.middle h → g % 2 = 0
  even_below : q = f.middle g → g % 2 = 0

variable {f}

/-! ### Values of magnitudes -/

theorem pow_precision (hprecision : 2 ≤ f.precision) : 2 ^ f.precision = 2 * f.step := by
  obtain ⟨n, hn⟩ : ∃ n, f.precision = n + 1 := ⟨f.precision - 1, by omega⟩
  simp [step, hn, Nat.pow_succ, Nat.mul_comm]

theorem step_mod_two (hprecision : 2 ≤ f.precision) : f.step % 2 = 0 := by
  obtain ⟨n, hn⟩ : ∃ n, f.precision = n + 2 := ⟨f.precision - 2, by omega⟩
  simp [step, hn, Nat.pow_succ]

theorem value_magnitude {m : Nat} {e : Int} (hm : m ≤ 2 * f.step) (he : f.minExp ≤ e)
    (hnormal : f.step ≤ m ∨ e = f.minExp) : f.value (f.magnitude m e) = m * 2 ^ e := by
  obtain ⟨n, rfl⟩ : ∃ n : Nat, e = f.minExp + n := ⟨(e - f.minExp).toNat, by omega⟩
  have hstep := f.step_pos
  have hplaces : (f.minExp + (n : Int) - f.minExp).toNat = n := by omega
  simp only [magnitude, hplaces]
  rcases Nat.lt_or_ge m f.step with hsmall | hlarge
  · obtain rfl : n = 0 := by omega
    simp [value, significand, exponent, hsmall]
  obtain ⟨k, rfl⟩ := Nat.exists_eq_add_of_le hlarge
  have hsum : f.step + k + n * f.step = k + (n + 1) * f.step := by ring
  have hge : ¬ k + (n + 1) * f.step < f.step := by
    have : f.step ≤ (n + 1) * f.step := Nat.le_mul_of_pos_left _ (Nat.succ_pos n)
    omega
  rw [hsum, value, significand, exponent, if_neg hge, if_neg hge, Nat.add_mul_mod_self_right,
    Nat.add_mul_div_right _ _ hstep]
  rcases Nat.lt_or_ge k f.step with hk | hk
  · rw [Nat.mod_eq_of_lt hk, Nat.div_eq_of_lt hk]
    congr 2
    · omega
    · simp
  · obtain rfl : k = f.step := by omega
    have hplace : ((f.step / f.step + (n + 1) - 1 : Nat) : Int) = n + 1 := by
      rw [Nat.div_self hstep]
      omega
    rw [Nat.mod_self, hplace, ← add_assoc, zpow_add_one₀ (by norm_num)]
    push_cast
    ring

theorem minExp_le_exponent (g : Nat) : f.minExp ≤ f.exponent g := by
  unfold exponent
  split <;> omega

theorem normal_significand (g : Nat) : f.step ≤ f.significand g ∨ f.exponent g = f.minExp := by
  unfold significand exponent
  split
  · exact .inr rfl
  · exact .inl (Nat.le_add_left ..)

theorem significand_lt_two_mul_step (g : Nat) : f.significand g < 2 * f.step := by
  have hmod := Nat.mod_lt g f.step_pos
  unfold significand
  split <;> omega

theorem magnitude_significand (g : Nat) : f.magnitude (f.significand g) (f.exponent g) = g := by
  unfold magnitude significand exponent
  split
  · simp
  · rename_i hge
    have hdiv : 1 ≤ g / f.step := (Nat.one_le_div_iff f.step_pos).mpr (by omega)
    have hplaces : (f.minExp + ((g / f.step - 1 : Nat) : Int) - f.minExp).toNat =
        g / f.step - 1 := by
      omega
    have hsplit := Nat.mod_add_div g f.step
    obtain ⟨n, hn⟩ := Nat.exists_eq_add_of_le hdiv
    rw [hplaces, hn, Nat.add_sub_cancel_left]
    rw [hn] at hsplit
    linarith

theorem magnitude_succ (m : Nat) (e : Int) : f.magnitude (m + 1) e = f.magnitude m e + 1 := by
  unfold magnitude
  ring

/-- Neighbours differ by one in the last place of the smaller. -/
theorem value_succ (g : Nat) : f.value (g + 1) = f.value g + 2 ^ f.exponent g := by
  have hnext : g + 1 = f.magnitude (f.significand g + 1) (f.exponent g) := by
    rw [magnitude_succ, magnitude_significand]
  rw [hnext, value_magnitude (significand_lt_two_mul_step g) (minExp_le_exponent g)
    ((normal_significand g).imp_left fun h => h.trans (Nat.le_succ _)), value]
  push_cast
  ring

theorem strictMono_value : StrictMono f.value :=
  strictMono_nat_of_lt_succ fun g => by
    rw [value_succ]
    exact lt_add_of_pos_right _ (by positivity)

theorem middle_eq (g : Nat) : f.middle g = f.value g + 2 ^ f.exponent g / 2 := by
  rw [middle, value_succ]
  ring

theorem value_lt_middle (g : Nat) : f.value g < f.middle g := by
  rw [middle_eq]
  exact lt_add_of_pos_right _ (by positivity)

theorem middle_lt_value (g : Nat) : f.middle g < f.value (g + 1) := by
  rw [middle_eq, value_succ]
  have hplace : (0 : ℚ) < 2 ^ f.exponent g := by positivity
  linarith

theorem strictMono_middle : StrictMono f.middle :=
  strictMono_nat_of_lt_succ fun g => (middle_lt_value g).trans (value_lt_middle (g + 1))

@[simp]
theorem value_zero : f.value 0 = 0 := by
  simp [value, significand, f.step_pos]

theorem value_pos {g : Nat} (hg : 0 < g) : 0 < f.value g := by
  simpa using strictMono_value (f := f) hg

/-! ### The magnitude that a number rounds to -/

/-- A number rounds to one magnitude only. -/
theorem RoundsTo.unique {q : ℚ} {g h : Nat} (hg : f.RoundsTo q g) (hh : f.RoundsTo q h) :
    g = h := by
  have hle {g h : Nat} (hg : f.RoundsTo q g) (hh : f.RoundsTo q h) : h ≤ g := by
    by_contra hlt
    obtain ⟨k, rfl⟩ : ∃ k, h = k + 1 := ⟨h - 1, by omega⟩
    have hmiddle : f.middle g ≤ f.middle k := strictMono_middle.monotone (by omega)
    have hk := hh.above k rfl
    have hsame : f.middle g = f.middle k := le_antisymm hmiddle (hk.trans hg.below)
    obtain rfl := strictMono_middle.injective hsame
    have heven := hg.even_below (le_antisymm hg.below hk)
    have heven' := hh.even_above g rfl (le_antisymm hg.below hk)
    omega
  exact le_antisymm (hle hh hg) (hle hg hh)

theorem roundsTo_value (g : Nat) : f.RoundsTo (f.value g) g where
  above h hh := hh ▸ (middle_lt_value h).le
  below := (value_lt_middle g).le
  even_above h hh heq := absurd heq (hh ▸ (middle_lt_value h).ne')
  even_below heq := absurd heq (value_lt_middle g).ne

/-- A number that lies strictly between two midpoints rounds to what is between them. -/
theorem roundsTo_of_lt {q : ℚ} {g : Nat} (habove : ∀ h, g = h + 1 → f.middle h < q)
    (hbelow : q < f.middle g) : f.RoundsTo q g where
  above h hh := (habove h hh).le
  below := hbelow.le
  even_above h hh heq := absurd heq (habove h hh).ne'
  even_below heq := absurd heq hbelow.ne

/-- What rounds to a magnitude is no farther from it than half of its last place. -/
theorem RoundsTo.abs_sub_le {q : ℚ} {g : Nat} (hround : f.RoundsTo q g) (hg : 0 < g) :
    |q - f.value g| ≤ 2 ^ f.exponent g / 2 := by
  obtain ⟨h, rfl⟩ : ∃ h, g = h + 1 := ⟨g - 1, by omega⟩
  have hbelow := hround.below
  have habove := hround.above h rfl
  have hplaces : (2 : ℚ) ^ f.exponent h ≤ 2 ^ f.exponent (h + 1) := by
    apply zpow_le_zpow_right₀ (by norm_num)
    unfold exponent
    have hdiv : h / f.step ≤ (h + 1) / f.step := Nat.div_le_div_right (Nat.le_succ h)
    split <;> split <;> omega
  rw [middle_eq] at hbelow habove
  rw [value_succ] at hbelow ⊢
  rw [abs_le]
  constructor <;> linarith

/-- What rounds to a magnitude with all places differs from it by less than one part in
`2^precision`. -/
theorem RoundsTo.abs_sub_le_mul {q : ℚ} {g : Nat} (hprecision : 2 ≤ f.precision)
    (hround : f.RoundsTo q g) (hnormal : f.step ≤ g) :
    |q - f.value g| ≤ f.value g / 2 ^ f.precision := by
  have hstep := f.step_pos
  have hhalf := hround.abs_sub_le (by omega)
  have hsignificand : (f.step : ℚ) ≤ f.significand g := by
    unfold significand
    rw [if_neg (by omega)]
    exact_mod_cast Nat.le_add_left ..
  have hpow : (2 : ℚ) ^ f.precision = 2 * f.step := by exact_mod_cast pow_precision hprecision
  have hpos : (0 : ℚ) < f.step := by exact_mod_cast hstep
  refine hhalf.trans ?_
  rw [hpow, value, div_le_div_iff₀ (by norm_num) (by positivity)]
  have hplace : (0 : ℚ) < 2 ^ f.exponent g := by positivity
  nlinarith

/-- What is at least the first number with all places rounds to one that has them. -/
theorem RoundsTo.step_le {q : ℚ} {g : Nat} (hround : f.RoundsTo q g)
    (hlarge : f.value f.step ≤ q) : f.step ≤ g := by
  by_contra hlt
  have hnext : f.value (g + 1) ≤ f.value f.step := strictMono_value.monotone (by omega)
  exact absurd hround.below (not_le.mpr ((middle_lt_value g).trans_le (hnext.trans hlarge)))

theorem RoundsTo.lt_of_lt {q : ℚ} {g h : Nat} (hround : f.RoundsTo q g) (hlt : q < f.middle h) :
    g ≤ h := by
  by_contra hgt
  obtain ⟨k, rfl⟩ : ∃ k, g = k + 1 := ⟨g - 1, by omega⟩
  have hmiddle : f.middle h ≤ f.middle k := strictMono_middle.monotone (by omega)
  exact absurd (hround.above k rfl) (not_le.mpr (hlt.trans_le hmiddle))

/-- What has no more places than a significand is the value of a magnitude. -/
theorem exists_value_eq {m : Nat} {e : Int} (hm : m ≤ 2 * f.step) (he : f.minExp ≤ e) :
    ∃ g, f.value g = m * 2 ^ e := by
  obtain ⟨n, rfl⟩ : ∃ n : Nat, e = f.minExp + n := ⟨(e - f.minExp).toNat, by omega⟩
  induction n generalizing m with
  | zero => exact ⟨_, value_magnitude hm he (.inr (by simp))⟩
  | succ n ih =>
      rcases Nat.lt_or_ge m f.step with hsmall | hlarge
      · obtain ⟨g, hg⟩ := ih (m := 2 * m) (by omega) (by omega)
        refine ⟨g, hg.trans ?_⟩
        push_cast
        rw [← add_assoc, zpow_add_one₀ (by norm_num)]
        ring
      · exact ⟨_, value_magnitude hm he (.inl hlarge)⟩

end BinaryFormat

/-! ### Quotients -/

theorem roundDiv_nearest (num : Nat) {den : Nat} (hden : 0 < den) :
    |(num : ℚ) / den - roundDiv num den| ≤ 1 / 2 ∧
      (|(num : ℚ) / den - roundDiv num den| = 1 / 2 → roundDiv num den % 2 = 0) := by
  have hd : (0 : ℚ) < den := by exact_mod_cast hden
  have hrest : ((num % den : Nat) : ℚ) / den < 1 := by
    rw [div_lt_one hd]
    exact_mod_cast Nat.mod_lt num hden
  have hnonneg : (0 : ℚ) ≤ ((num % den : Nat) : ℚ) / den := by positivity
  have hsplit : (num : ℚ) / den = (num / den : Nat) + ((num % den : Nat) : ℚ) / den := by
    rw [eq_comm, add_div_eq_mul_add_div _ _ hd.ne', div_left_inj' hd.ne']
    exact_mod_cast Nat.div_add_mod' num den
  have hhalf : ((num % den : Nat) : ℚ) / den < 1 / 2 ↔ 2 * (num % den) < den := by
    rw [div_lt_div_iff₀ hd (by norm_num), one_mul]
    exact_mod_cast Iff.of_eq (congrArg (· < den) (Nat.mul_comm ..))
  have hhalf' : 1 / 2 < ((num % den : Nat) : ℚ) / den ↔ den < 2 * (num % den) := by
    rw [div_lt_div_iff₀ (by norm_num) hd, one_mul]
    exact_mod_cast Iff.of_eq (congrArg (den < ·) (Nat.mul_comm ..))
  rw [hsplit]
  generalize ((num % den : Nat) : ℚ) / den = rest at *
  unfold roundDiv
  simp only [gt_iff_lt, ← hhalf, ← hhalf']
  split
  · rename_i hlt
    rw [add_sub_cancel_left, abs_of_nonneg hnonneg]
    exact ⟨hlt.le, fun heq => absurd heq hlt.ne⟩
  · rename_i hge
    split
    · rename_i hgt
      push_cast
      rw [add_sub_add_left_eq_sub, abs_of_nonpos (by linarith)]
      exact ⟨by linarith, fun heq => absurd heq (by linarith)⟩
    · rename_i hle
      obtain rfl : rest = 1 / 2 := le_antisymm (not_lt.mp hle) (not_lt.mp hge)
      refine ⟨?_, fun _ => by omega⟩
      rcases Nat.mod_two_eq_zero_or_one (num / den) with hparity | hparity <;> rw [hparity] <;>
        push_cast <;> rw [abs_le] <;> constructor <;> linarith

theorem scaled_eq (num den : Nat) (e : Int) :
    ((scaled num den e).1 : ℚ) / (scaled num den e).2 = num / den * 2 ^ e := by
  unfold scaled
  split
  · rename_i hnonneg
    obtain ⟨n, rfl⟩ := Int.eq_ofNat_of_zero_le hnonneg
    simp only [Int.toNat_natCast, Nat.pow_eq, zpow_natCast]
    push_cast
    ring
  · obtain ⟨n, rfl⟩ : ∃ n : Nat, e = -n := ⟨(-e).toNat, by omega⟩
    simp only [neg_neg, Int.toNat_natCast, Nat.pow_eq, zpow_neg, zpow_natCast]
    push_cast
    rw [div_mul_eq_div_div_swap]
    field_simp

namespace BinaryFormat

variable {f : BinaryFormat} {num den : Nat}

theorem quotient_bounds (hnum : 0 < num) (hden : 0 < den) :
    (2 : ℚ) ^ ((num.log2 : Int) - den.log2 - 1) < num / den ∧
      (num : ℚ) / den < 2 ^ ((num.log2 : Int) - den.log2 + 1) := by
  have hd : (0 : ℚ) < den := by exact_mod_cast hden
  have hlow : (2 : ℚ) ^ num.log2 ≤ num := by exact_mod_cast Nat.log2_self_le hnum.ne'
  have hhigh : (num : ℚ) < 2 ^ (num.log2 + 1) := by exact_mod_cast Nat.lt_log2_self
  have hlow' : (2 : ℚ) ^ den.log2 ≤ den := by exact_mod_cast Nat.log2_self_le hden.ne'
  have hhigh' : (den : ℚ) < 2 ^ (den.log2 + 1) := by exact_mod_cast Nat.lt_log2_self
  constructor
  · rw [lt_div_iff₀ hd]
    calc (2 : ℚ) ^ ((num.log2 : Int) - den.log2 - 1) * den
        < 2 ^ ((num.log2 : Int) - den.log2 - 1) * 2 ^ (den.log2 + 1) := by gcongr
      _ = 2 ^ num.log2 := by
        rw [← zpow_natCast, ← zpow_add₀ (by norm_num), ← zpow_natCast]
        congr 1
        push_cast
        ring
      _ ≤ num := hlow
  · rw [div_lt_iff₀ hd]
    calc (num : ℚ) < 2 ^ (num.log2 + 1) := hhigh
      _ = 2 ^ ((num.log2 : Int) - den.log2 + 1) * 2 ^ den.log2 := by
        rw [← zpow_natCast, ← zpow_natCast, ← zpow_add₀ (by norm_num)]
        congr 1
        push_cast
        ring
      _ ≤ 2 ^ ((num.log2 : Int) - den.log2 + 1) * den := by gcongr

/-- The last place that a quotient is rounded to: it has room for the quotient, and no finer one
that exists has. -/
theorem exists_round_eq (hprecision : 2 ≤ f.precision) (hnum : 0 < num) (hden : 0 < den) :
    ∃ e : Int, f.minExp ≤ e ∧ (num : ℚ) / den < 2 * f.step * 2 ^ e ∧
      (f.step * 2 ^ e ≤ (num : ℚ) / den ∨ e = f.minExp) ∧
      f.round num den = min f.infinity
        (f.magnitude (roundDiv (scaled num den (-e)).1 (scaled num den (-e)).2) e) := by
  obtain ⟨hlow, hhigh⟩ := quotient_bounds hnum hden
  have hroom : (2 : ℚ) ^ f.precision = 2 * f.step := by exact_mod_cast pow_precision hprecision
  generalize hguess : max f.minExp ((num.log2 : Int) - den.log2 - f.precision) = guess
  have hfits : (scaled num den (-guess)).1 / (scaled num den (-guess)).2 < Nat.pow 2 f.precision ↔
      (num : ℚ) / den < 2 * f.step * 2 ^ guess := by
    rw [← hroom, ← div_lt_iff₀ (by positivity), div_eq_mul_inv, ← zpow_neg, ← scaled_eq,
      div_lt_iff₀ (by exact_mod_cast (scaled_pos hnum hden _).2),
      Nat.div_lt_iff_lt_mul (scaled_pos hnum hden _).2]
    exact_mod_cast Iff.rfl
  have hround : f.round num den = min f.infinity
      (let e := if (scaled num den (-guess)).1 / (scaled num den (-guess)).2 <
        Nat.pow 2 f.precision then guess else guess + 1
      f.magnitude (roundDiv (scaled num den (-e)).1 (scaled num den (-e)).2) e) := by
    rw [round, if_neg hnum.ne', hguess]
  rw [hround]
  by_cases htest : (num : ℚ) / den < 2 * f.step * 2 ^ guess
  · simp only [if_pos (hfits.mpr htest)]
    refine ⟨guess, by omega, htest, ?_, rfl⟩
    rcases eq_or_ne guess f.minExp with hmin | hmin
    · exact .inr hmin
    · refine .inl (le_of_eq_of_le ?_ hlow.le)
      rw [eq_div_of_mul_eq (by norm_num) ((mul_comm _ _).trans hroom.symm),
        div_mul_eq_mul_div, div_eq_iff (by norm_num), ← zpow_natCast, ← zpow_add₀ (by norm_num),
        ← zpow_add_one₀ (by norm_num)]
      congr 1
      omega
  · simp only [if_neg (mt hfits.mp htest)]
    have hnext : (2 : ℚ) ^ (guess + 1) = 2 * 2 ^ guess := by
      rw [zpow_add_one₀ (by norm_num), mul_comm]
    refine ⟨guess + 1, by omega, ?_, .inl ?_, rfl⟩
    · refine hhigh.trans_le ?_
      rw [← hroom, ← zpow_natCast, ← zpow_add₀ (by norm_num)]
      exact zpow_le_zpow_right₀ (by norm_num) (by omega)
    · rw [hnext]
      linarith

theorem magnitude_mod_two (hprecision : 2 ≤ f.precision) {m : Nat} (hm : m % 2 = 0) (e : Int) :
    f.magnitude m e % 2 = 0 := by
  have hmod := step_mod_two hprecision
  rw [magnitude, Nat.add_mod, Nat.mul_mod, hmod, hm]
  simp

section Nearest

variable {t : ℚ} {m : Nat} {e : Int}

theorem middle_magnitude (hm : m < 2 * f.step) (he : f.minExp ≤ e)
    (hnormal : f.step ≤ m ∨ e = f.minExp) :
    f.middle (f.magnitude m e) = (m + 1 / 2) * 2 ^ e := by
  have hnext := value_magnitude hm he (hnormal.imp_left fun h => h.trans (Nat.le_succ m))
  rw [middle, ← magnitude_succ, value_magnitude hm.le he hnormal, hnext]
  push_cast
  ring

/-- The midpoint above a significand is half a place away, but above the next power of two, where
there is nothing left to show. -/
theorem lt_middle_or_eq (hm : m ≤ 2 * f.step) (he : f.minExp ≤ e)
    (hnormal : f.step ≤ m ∨ e = f.minExp) (hroom : t < 2 * f.step) :
    t * 2 ^ e < f.middle (f.magnitude m e) ∨ f.middle (f.magnitude m e) = (m + 1 / 2) * 2 ^ e := by
  rcases hm.lt_or_eq with hlt | rfl
  · exact .inr (middle_magnitude hlt he hnormal)
  · refine .inl (lt_trans ?_ (value_lt_middle _))
    rw [value_magnitude hm he hnormal, mul_lt_mul_iff_left₀ (by positivity)]
    push_cast
    exact hroom

/-- The midpoint below a significand is half a place away, but below a power of two, which is not
above the number. -/
theorem middle_lt_or_eq {h : Nat} (hm : m ≤ 2 * f.step) (he : f.minExp ≤ e)
    (hstep : f.step ≤ m ∨ e = f.minExp) (hnormal : f.step ≤ t ∨ e = f.minExp)
    (hh : f.magnitude m e = h + 1) :
    f.middle h < t * 2 ^ e ∨ f.middle h = (m - 1 / 2) * 2 ^ e := by
  have hpos : 0 < m := by
    rcases hstep with hle | rfl
    · exact f.step_pos.trans_le hle
    · by_contra hzero
      simp [magnitude, show m = 0 by omega] at hh
  obtain ⟨k, rfl⟩ : ∃ k, m = k + 1 := ⟨m - 1, by omega⟩
  obtain rfl : f.magnitude k e = h := by
    rw [magnitude_succ] at hh
    omega
  by_cases hcoarse : f.step ≤ k ∨ e = f.minExp
  · right
    rw [middle_magnitude (by omega) he hcoarse]
    push_cast
    ring
  · left
    have hle : (f.step : ℚ) ≤ t := hnormal.resolve_right fun heq => hcoarse (.inr heq)
    have hpower : k + 1 = f.step := by omega
    refine (middle_lt_value _).trans_le ?_
    rw [← magnitude_succ, value_magnitude hm he hstep, hpower,
      mul_le_mul_iff_left₀ (by positivity)]
    exact hle

/-- The magnitude of a significand that is nearest to a number in its last place. -/
theorem roundsTo_magnitude {q : ℚ} (hprecision : 2 ≤ f.precision) (he : f.minExp ≤ e)
    (hroom : q < 2 * f.step * 2 ^ e) (hnormal : f.step * 2 ^ e ≤ q ∨ e = f.minExp)
    (hnearest : |q / 2 ^ e - m| ≤ 1 / 2) (htie : |q / 2 ^ e - m| = 1 / 2 → m % 2 = 0) :
    f.RoundsTo q (f.magnitude m e) := by
  have hplace : (0 : ℚ) < 2 ^ e := by positivity
  obtain ⟨t, rfl⟩ : ∃ t : ℚ, q = t * 2 ^ e := ⟨q / 2 ^ e, by field_simp⟩
  rw [mul_div_cancel_right₀ _ hplace.ne'] at hnearest htie
  rw [mul_lt_mul_iff_left₀ hplace] at hroom
  rw [mul_le_mul_iff_left₀ hplace] at hnormal
  obtain ⟨hlow, hhigh⟩ := abs_le.mp hnearest
  have hm : m ≤ 2 * f.step := by
    have : (m : ℚ) < (2 * f.step + 1 : Nat) := by
      push_cast
      linarith
    have : m < 2 * f.step + 1 := by exact_mod_cast this
    omega
  have hstep : f.step ≤ m ∨ e = f.minExp := hnormal.imp_left fun hle => by
    have : (f.step : ℚ) < (m + 1 : Nat) := by
      push_cast
      linarith
    have : f.step < m + 1 := by exact_mod_cast this
    omega
  have hbelow := lt_middle_or_eq hm he hstep hroom
  have habove (h : Nat) (hh : f.magnitude m e = h + 1) := middle_lt_or_eq hm he hstep hnormal hh
  constructor
  · intro h hh
    rcases habove h hh with hlt | heq
    · exact hlt.le
    · rw [heq, mul_le_mul_iff_left₀ hplace]
      linarith
  · rcases hbelow with hlt | heq
    · exact hlt.le
    · rw [heq, mul_le_mul_iff_left₀ hplace]
      linarith
  · intro h hh heq
    rcases habove h hh with hlt | hmiddle
    · exact absurd heq hlt.ne'
    · rw [hmiddle, mul_left_inj' hplace.ne'] at heq
      refine magnitude_mod_two hprecision (htie ?_) e
      rw [heq, show (m : ℚ) - 1 / 2 - m = -(1 / 2) by ring, abs_neg, abs_of_pos (by norm_num)]
  · intro heq
    rcases hbelow with hlt | hmiddle
    · exact absurd heq hlt.ne
    · rw [hmiddle, mul_left_inj' hplace.ne'] at heq
      refine magnitude_mod_two hprecision (htie ?_) e
      rw [heq, add_sub_cancel_left, abs_of_pos (by norm_num)]

end Nearest

theorem roundsTo_round (hprecision : 2 ≤ f.precision) (hnum : 0 < num) (hden : 0 < den) :
    ∃ g, f.RoundsTo ((num : ℚ) / den) g ∧ f.round num den = min f.infinity g := by
  obtain ⟨e, he, hroom, hnormal, hround⟩ := exists_round_eq hprecision hnum hden
  obtain ⟨hnearest, htie⟩ := roundDiv_nearest (scaled num den (-e)).1 (scaled_pos hnum hden (-e)).2
  rw [scaled_eq, zpow_neg, ← div_eq_mul_inv] at hnearest htie
  exact ⟨_, roundsTo_magnitude hprecision he hroom hnormal hnearest htie, hround⟩

/-- Quotients are rounded to the magnitude that they lie nearest to, or to infinity. -/
theorem round_eq (hprecision : 2 ≤ f.precision) (hnum : 0 < num) (hden : 0 < den) {g : Nat}
    (hrounds : f.RoundsTo ((num : ℚ) / den) g) : f.round num den = min f.infinity g := by
  obtain ⟨h, hh, hround⟩ := roundsTo_round hprecision hnum hden
  rw [hround, hh.unique hrounds]

end BinaryFormat

end GrpcContract.Number
