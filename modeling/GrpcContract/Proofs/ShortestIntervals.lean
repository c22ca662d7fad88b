import GrpcContract.Proofs.Rounding

/-!
# Where shortest decimals lie

The search for the shortest decimal of a number looks between the two midpoints around the number,
so what it finds rounds to the number. It takes a point of the coarsest grid that has one inside,
and of this grid the nearest.
-/

namespace GrpcContract.Number

namespace RoundingInterval

variable {i j : RoundingInterval} {tie : Tie} {k : Int}

theorem contains_iff {x : Nat} : i.contains x = true ↔
    i.low ≤ x ∧ x ≤ i.high ∧ (i.closed = false → i.low ≠ x ∧ x ≠ i.high) := by
  unfold contains
  split
  · simp [*]
  · simp [*]
    omega

/-- A point of a grid inside an interval that is the nearest: it is within half a step of the
value, or the next point beyond the value is not inside. -/
structure IsNearest (j : RoundingInterval) (unit x : Nat) : Prop where
  inside : j.contains x = true
  nearest : 2 * x ≤ 2 * j.value + unit ∧ 2 * j.value ≤ 2 * x + unit ∨
    x ≤ j.value ∧ j.high ≤ x + unit ∨ j.value ≤ x ∧ x ≤ j.low + unit

theorem isNearest_of_nearest? {d : Nat} (hunit : 0 < (i.onGrid k).2)
    (hlow : (i.onGrid k).1.low < (i.onGrid k).1.value)
    (hhigh : (i.onGrid k).1.value < (i.onGrid k).1.high) (hfound : i.nearest? tie k = some d) :
    (i.onGrid k).1.IsNearest (i.onGrid k).2 (d * (i.onGrid k).2) := by
  unfold nearest? at hfound
  generalize i.onGrid k = grid at *
  obtain ⟨j, unit⟩ := grid
  simp only at *
  have hbelow : j.value / unit * unit ≤ j.value := Nat.div_mul_le_self ..
  have habove : j.value < j.value / unit * unit + unit := Nat.lt_div_mul_add hunit
  generalize j.value / unit = q at *
  have hnext : (q + 1) * unit = q * unit + unit := Nat.succ_mul q unit
  have hbeforeLow (hout : j.contains (q * unit) = false) : q * unit ≤ j.low := by
    rw [← Bool.not_eq_true, contains_iff] at hout
    grind
  have hbeyondHigh (hout : j.contains (q * unit + unit) = false) : j.high ≤ q * unit + unit := by
    rw [← Bool.not_eq_true, contains_iff] at hout
    grind
  -- Where both neighbours are inside, whichever is taken is the nearer one.
  have hbelowNearer (hin : j.contains (q * unit) = true)
      (hle : j.value - q * unit ≤ q * unit + unit - j.value) : j.IsNearest unit (q * unit) :=
    ⟨hin, .inl (by omega)⟩
  have haboveNearer (hin : j.contains (q * unit + unit) = true)
      (hle : q * unit + unit - j.value ≤ j.value - q * unit) :
      j.IsNearest unit ((q + 1) * unit) :=
    ⟨hnext ▸ hin, .inl (by omega)⟩
  rw [hnext] at hfound
  split at hfound
  · simp at hfound
  split at hfound
  · rename_i hboth
    obtain ⟨hlowIn, hhighIn⟩ := Bool.and_eq_true_iff.mp hboth
    split at hfound
    · rename_i hlt
      exact Option.some.inj hfound ▸ hbelowNearer hlowIn hlt.le
    split at hfound
    · rename_i hlt
      exact Option.some.inj hfound ▸ haboveNearer hhighIn hlt.le
    split at hfound
    · rw [← Option.some.inj hfound]
      rcases Nat.mod_two_eq_zero_or_one q with hparity | hparity <;> rw [hparity]
      · exact hbelowNearer hlowIn (by omega)
      · exact haboveNearer hhighIn (by omega)
    · exact Option.some.inj hfound ▸ haboveNearer hhighIn (by omega)
  · rename_i hnot
    split at hfound
    · rename_i hlowIn
      have hhighOut : j.contains (q * unit + unit) = false := by simpa [hlowIn] using hnot
      exact Option.some.inj hfound ▸ ⟨hlowIn, .inr (.inl ⟨hbelow, hbeyondHigh hhighOut⟩)⟩
    split at hfound
    · rename_i hlowOut hhighIn
      have hle := hbeforeLow (Bool.eq_false_of_not_eq_true hlowOut)
      rw [← Option.some.inj hfound, hnext]
      exact ⟨hhighIn, .inr (.inr ⟨habove.le, by omega⟩)⟩
    · simp at hfound

/-- The search answers with the point found on some grid, where that grid is the first or the one
before it has no point inside. -/
theorem search_spec {fuel n : Nat} (hn : n < fuel)
    (hfound : (i.nearest? tie (k - n)).isSome = true) :
    i.nearest? tie (i.search tie fuel k).exponent = some (i.search tie fuel k).digits ∧
      ((i.search tie fuel k).exponent = k ∨
        i.nearest? tie ((i.search tie fuel k).exponent + 1) = none) := by
  induction fuel generalizing k n with
  | zero => omega
  | succ fuel ih =>
      rw [search]
      cases hnearest : i.nearest? tie k with
      | some d => exact ⟨hnearest, .inl rfl⟩
      | none =>
          cases n with
          | zero => simp [hnearest] at hfound
          | succ n =>
              rw [show k - (n + 1 : Nat) = k - 1 - (n : Int) by omega] at hfound
              obtain ⟨hpoint, hfirst⟩ := ih (n := n) (by omega) hfound
              refine ⟨hpoint, .inr ?_⟩
              rcases hfirst with hexponent | hnone
              · rw [hexponent, Int.sub_add_cancel, hnearest]
              · exact hnone

/-- A grid has the bounds of the interval on it, each over the step of the grid. -/
theorem onGrid_eq (hden : 0 < i.den) (k : Int) : 0 < (i.onGrid k).2 ∧
    ((i.onGrid k).1.low : ℚ) = i.low / i.den / 10 ^ k * (i.onGrid k).2 ∧
    ((i.onGrid k).1.value : ℚ) = i.value / i.den / 10 ^ k * (i.onGrid k).2 ∧
    ((i.onGrid k).1.high : ℚ) = i.high / i.den / 10 ^ k * (i.onGrid k).2 := by
  have hd : (0 : ℚ) < i.den := by exact_mod_cast hden
  unfold onGrid
  split
  · obtain ⟨n, rfl⟩ : ∃ n : Nat, k = n := ⟨k.toNat, by omega⟩
    simp only [Int.toNat_natCast, Nat.pow_eq, zpow_natCast]
    refine ⟨Nat.mul_pos hden (Nat.pow_pos (by decide)), ?_, ?_, ?_⟩ <;>
    · push_cast
      field_simp
  · obtain ⟨n, rfl⟩ : ∃ n : Nat, k = -n := ⟨(-k).toNat, by omega⟩
    simp only [neg_neg, Int.toNat_natCast, Nat.pow_eq, zpow_neg, zpow_natCast]
    refine ⟨hden, ?_, ?_, ?_⟩ <;>
    · push_cast
      field_simp

theorem closed_onGrid (i : RoundingInterval) (k : Int) : (i.onGrid k).1.closed = i.closed := by
  unfold onGrid
  split <;> rfl

end RoundingInterval

namespace BinaryFormat

variable {f : BinaryFormat} {g : Nat}

/-! ### The interval of a number -/

/-- The last place before a number is its own, or half of it at a power of two. -/
theorem exponent_eq_of_succ (g : Nat) : f.exponent g = f.exponent (g + 1) -
    if f.significand (g + 1) = f.step ∧ f.minExp < f.exponent (g + 1) then 1 else 0 := by
  have hstep := f.step_pos
  have hdiv : (g + 1) / f.step = g / f.step + if f.step ∣ g + 1 then 1 else 0 := Nat.succ_div
  unfold exponent significand
  rcases Nat.lt_trichotomy (g + 1) f.step with hlt | heq | hgt
  · have : ¬ (g + 1 = f.step) := by omega
    simp [show g < f.step by omega, hlt, this]
  · simp [← heq]
  · have hge : f.step ≤ g := by omega
    have hpos : 1 ≤ g / f.step := (Nat.one_le_div_iff hstep).mpr hge
    simp only [if_neg (show ¬ g < f.step by omega), if_neg (show ¬ g + 1 < f.step by omega), hdiv]
    by_cases hdvd : f.step ∣ g + 1
    · have hmod : (g + 1) % f.step = 0 := Nat.mod_eq_zero_of_dvd hdvd
      simp [hdvd, hmod]
      omega
    · have hmod : (g + 1) % f.step ≠ 0 := fun hzero => hdvd (Nat.dvd_of_mod_eq_zero hzero)
      simp [hdvd, hmod]

theorem den_interval_pos (f : BinaryFormat) (g : Nat) : 0 < (f.interval g).den :=
  (scaled_pos Nat.one_pos Nat.one_pos _).2

theorem quarter_eq (f : BinaryFormat) (g : Nat) (m : ℚ) :
    m * (scaled 1 1 (f.exponent g - 2)).1 / (scaled 1 1 (f.exponent g - 2)).2 =
      m / 4 * 2 ^ f.exponent g := by
  rw [mul_div_assoc, scaled_eq, zpow_sub₀ (by norm_num)]
  norm_num
  ring

theorem value_interval (f : BinaryFormat) (g : Nat) :
    ((f.interval g).value : ℚ) / (f.interval g).den = f.value g := by
  simp only [interval]
  push_cast
  rw [quarter_eq, value]
  ring

theorem high_interval (f : BinaryFormat) (g : Nat) :
    ((f.interval g).high : ℚ) / (f.interval g).den = f.middle g := by
  simp only [interval]
  push_cast
  rw [quarter_eq, middle_eq, value]
  ring

theorem low_interval (f : BinaryFormat) (g : Nat) :
    ((f.interval (g + 1)).low : ℚ) / (f.interval (g + 1)).den = f.middle g := by
  have hm : 0 < f.significand (g + 1) := significand_pos (Nat.succ_pos g)
  have hexponent := exponent_eq_of_succ (f := f) g
  have hmiddle : f.middle g = f.value (g + 1) - 2 ^ f.exponent g / 2 := by
    rw [value_succ, middle_eq]
    ring
  rw [hmiddle, value]
  simp only [interval]
  split at hexponent
  · rename_i hpower
    rw [if_pos hpower, hexponent, zpow_sub_one₀ (by norm_num), Nat.cast_mul,
      Nat.cast_sub (by omega), quarter_eq]
    push_cast
    ring
  · rename_i hpower
    rw [if_neg hpower, hexponent, sub_zero, Nat.cast_mul, Nat.cast_sub (by omega), quarter_eq]
    push_cast
    ring

theorem closed_interval (hprecision : 2 ≤ f.precision) :
    (f.interval g).closed = (g % 2 == 0) := by
  have heven := step_mod_two hprecision
  have hsplit := Nat.mod_add_div g f.step
  have hproduct : f.step * (g / f.step) % 2 = 0 := by rw [Nat.mul_mod, heven]; simp
  have hparity : f.significand g % 2 = g % 2 := by
    unfold significand
    split
    · rfl
    · omega
  rw [interval, hparity]

/-! ### Points found inside the interval -/

section Found

variable {tie : Tie} {k : Int} {d : Nat}

/-- The bounds of the interval on a grid, in steps of the grid. -/
theorem onGrid_interval (f : BinaryFormat) (g : Nat) (k : Int) :
    (0 : ℚ) < ((f.interval (g + 1)).onGrid k).2 ∧
    (((f.interval (g + 1)).onGrid k).1.low : ℚ) =
      f.middle g / 10 ^ k * ((f.interval (g + 1)).onGrid k).2 ∧
    (((f.interval (g + 1)).onGrid k).1.value : ℚ) =
      f.value (g + 1) / 10 ^ k * ((f.interval (g + 1)).onGrid k).2 ∧
    (((f.interval (g + 1)).onGrid k).1.high : ℚ) =
      f.middle (g + 1) / 10 ^ k * ((f.interval (g + 1)).onGrid k).2 := by
  obtain ⟨hunit, hlow, hvalue, hhigh⟩ :=
    RoundingInterval.onGrid_eq (f.den_interval_pos (g + 1)) k
  rw [low_interval] at hlow
  rw [value_interval] at hvalue
  rw [high_interval] at hhigh
  exact ⟨by exact_mod_cast hunit, hlow, hvalue, hhigh⟩

theorem onGrid_interval_lt (f : BinaryFormat) (g : Nat) (k : Int) :
    0 < ((f.interval (g + 1)).onGrid k).2 ∧
    ((f.interval (g + 1)).onGrid k).1.low < ((f.interval (g + 1)).onGrid k).1.value ∧
    ((f.interval (g + 1)).onGrid k).1.value < ((f.interval (g + 1)).onGrid k).1.high := by
  obtain ⟨hu, hlow, hvalue, hhigh⟩ := onGrid_interval f g k
  have hbelow := middle_lt_value (f := f) g
  have habove := value_lt_middle (f := f) (g + 1)
  refine ⟨by exact_mod_cast hu, ?_, ?_⟩
  · rw [← Nat.cast_lt (α := ℚ), hlow, hvalue]
    gcongr
  · rw [← Nat.cast_lt (α := ℚ), hvalue, hhigh]
    gcongr

theorem isNearest_interval (hfound : (f.interval (g + 1)).nearest? tie k = some d) :
    ((f.interval (g + 1)).onGrid k).1.IsNearest ((f.interval (g + 1)).onGrid k).2
      (d * ((f.interval (g + 1)).onGrid k).2) := by
  obtain ⟨hunit, hlow, hhigh⟩ := onGrid_interval_lt f g k
  exact RoundingInterval.isNearest_of_nearest? hunit hlow hhigh hfound

/-- What is found rounds to the number that it was searched for. -/
theorem roundsTo_of_nearest? (hprecision : 2 ≤ f.precision)
    (hfound : (f.interval (g + 1)).nearest? tie k = some d) :
    f.RoundsTo (d * 10 ^ k) (g + 1) := by
  obtain ⟨hu, hlow, -, hhigh⟩ := onGrid_interval f g k
  have hinside := (isNearest_interval hfound).inside
  rw [RoundingInterval.contains_iff, RoundingInterval.closed_onGrid,
    closed_interval hprecision] at hinside
  rw [← Nat.cast_le (α := ℚ), ← Nat.cast_le (α := ℚ), Ne, Ne, ← Nat.cast_inj (R := ℚ),
    ← Nat.cast_inj (R := ℚ), hlow, hhigh, Nat.cast_mul, mul_le_mul_iff_left₀ hu,
    mul_le_mul_iff_left₀ hu, mul_left_inj' hu.ne', mul_left_inj' hu.ne',
    div_le_iff₀ (by positivity), le_div_iff₀ (by positivity), div_eq_iff (by positivity),
    eq_div_iff (by positivity)] at hinside
  obtain ⟨habove, hbelow, hodd⟩ := hinside
  have heven (hmiddle : ¬ (f.middle g ≠ d * 10 ^ k ∧ d * 10 ^ k ≠ f.middle (g + 1))) :
      (g + 1) % 2 = 0 := by
    by_contra hparity
    exact hmiddle (hodd (by simpa using hparity))
  constructor
  · rintro h heq
    obtain rfl : g = h := by omega
    exact habove
  · exact hbelow
  · rintro h heq hmiddle
    obtain rfl : g = h := by omega
    exact heven fun hne => hne.1 hmiddle.symm
  · intro hmiddle
    exact heven fun hne => hne.2 hmiddle

/-- What is found is within half a step of its grid of the number, or within a step of the end of
the interval beyond. -/
theorem distance_of_nearest? (hfound : (f.interval (g + 1)).nearest? tie k = some d) :
    2 * |d * 10 ^ k - f.value (g + 1)| ≤ 10 ^ k ∨
      d * 10 ^ k ≤ f.value (g + 1) ∧ f.middle (g + 1) ≤ d * 10 ^ k + 10 ^ k ∨
      f.value (g + 1) ≤ d * 10 ^ k ∧ d * 10 ^ k ≤ f.middle g + 10 ^ k := by
  obtain ⟨hu, hlow, hvalue, hhigh⟩ := onGrid_interval f g k
  have hstep : (0 : ℚ) < 10 ^ k := by positivity
  have hnearest := (isNearest_interval hfound).nearest
  -- All in steps of the grid, as multiples of its unit.
  have hscale (q : ℚ) : q = q / 10 ^ k * 10 ^ k := (div_mul_cancel₀ q hstep.ne').symm
  rw [hscale (f.value (g + 1)), hscale (f.middle (g + 1)), hscale (f.middle g)]
  generalize f.value (g + 1) / 10 ^ k = value at *
  generalize f.middle (g + 1) / 10 ^ k = high at *
  generalize f.middle g / 10 ^ k = low at *
  have hle (x y : ℚ) (hxy : x * ((f.interval (g + 1)).onGrid k).2 ≤
      y * ((f.interval (g + 1)).onGrid k).2) : x * 10 ^ k ≤ y * 10 ^ k :=
    mul_le_mul_of_nonneg_right (le_of_mul_le_mul_right hxy hu) hstep.le
  rcases hnearest with ⟨hnear, hnear'⟩ | ⟨hbefore, hend⟩ | ⟨hafter, hend⟩
  · rw [← Nat.cast_le (α := ℚ)] at hnear hnear'
    push_cast at hnear hnear'
    rw [hvalue] at hnear hnear'
    have hlower := hle (2 * d) (2 * value + 1) (by linarith)
    have hupper := hle (2 * value) (2 * d + 1) (by linarith)
    refine .inl ?_
    rw [← le_div_iff₀' (by norm_num), abs_le]
    constructor <;> linarith
  · rw [← Nat.cast_le (α := ℚ)] at hbefore hend
    push_cast at hbefore hend
    rw [hvalue] at hbefore
    rw [hhigh] at hend
    exact .inr (.inl ⟨hle _ _ hbefore, by linarith [hle high (d + 1) (by linarith)]⟩)
  · rw [← Nat.cast_le (α := ℚ)] at hafter hend
    push_cast at hafter hend
    rw [hvalue] at hafter
    rw [hlow] at hend
    exact .inr (.inr ⟨hle _ _ hafter, by linarith [hle d (low + 1) (by linarith)]⟩)

end Found

/-! ### The shortest decimal -/

/-- How far the midpoint before a number is from it. -/
theorem quarter_le_sub_middle (g : Nat) :
    2 ^ f.exponent (g + 1) / 4 ≤ f.value (g + 1) - f.middle g := by
  have hplace : (2 : ℚ) ^ (f.exponent (g + 1) - 1) ≤ 2 ^ f.exponent g := by
    apply zpow_le_zpow_right₀ (by norm_num)
    rw [exponent_eq_of_succ g]
    split <;> omega
  rw [zpow_sub_one₀ (by norm_num)] at hplace
  rw [value_succ, middle_eq]
  linarith

theorem one_le_significand_succ (g : Nat) : (1 : ℚ) ≤ f.significand (g + 1) := by
  exact_mod_cast significand_pos (Nat.succ_pos g)

theorem middle_le_two_mul_value (g : Nat) : f.middle (g + 1) ≤ 2 * f.value (g + 1) := by
  have hplace : (0 : ℚ) < 2 ^ f.exponent (g + 1) := by positivity
  rw [middle_eq, value]
  nlinarith [one_le_significand_succ (f := f) g]

theorem value_lt_pow_decimalTop (g : Nat) : f.value (g + 1) <
    10 ^ (decimalTop (f.interval (g + 1)).value (f.interval (g + 1)).den + 1) := by
  have hden := f.den_interval_pos (g + 1)
  have hd : (0 : ℚ) < (f.interval (g + 1)).den := by exact_mod_cast hden
  have hvalue := value_interval f (g + 1)
  have hpos : 0 < (f.interval (g + 1)).value := by
    by_contra hzero
    rw [show (f.interval (g + 1)).value = 0 by omega, Nat.cast_zero, zero_div] at hvalue
    exact absurd hvalue (value_pos (Nat.succ_pos g)).ne
  have hcount : 1 ≤ digitCount (f.interval (g + 1)).den := by
    rw [digitCount_of_pos hden]
    exact Nat.length_toDigits_pos
  have hbelow : ((f.interval (g + 1)).value : ℚ) < 10 ^ digitCount (f.interval (g + 1)).value := by
    exact_mod_cast lt_pow_digitCount hpos
  have habove :
      (10 : ℚ) ^ (digitCount (f.interval (g + 1)).den - 1) ≤ (f.interval (g + 1)).den := by
    exact_mod_cast pow_digitCount_le hden
  rw [← hvalue, div_lt_iff₀ hd]
  generalize f.interval (g + 1) = i at *
  calc (i.value : ℚ) < 10 ^ digitCount i.value := hbelow
    _ = 10 ^ (decimalTop i.value i.den + 1) * 10 ^ (digitCount i.den - 1) := by
      rw [← zpow_natCast, ← zpow_natCast, ← zpow_add₀ (by norm_num), decimalTop]
      congr 1
      omega
    _ ≤ 10 ^ (decimalTop i.value i.den + 1) * i.den := by gcongr

/-- Where a grid has no point inside, a step of it reaches over a quarter of the last place. -/
theorem place_lt_of_nearest?_eq_none {tie : Tie} {k : Int}
    (hnone : (f.interval (g + 1)).nearest? tie k = none) :
    2 ^ f.exponent (g + 1) < (4 : ℚ) * 10 ^ k := by
  obtain ⟨hu, hlow, hvalue, -⟩ := onGrid_interval f g k
  obtain ⟨hunit, -, hinside⟩ := onGrid_interval_lt f g k
  have hstep : (0 : ℚ) < 10 ^ k := by positivity
  by_contra hle
  have hquarter := quarter_le_sub_middle (f := f) g
  have hfine : ((f.interval (g + 1)).onGrid k).1.low + ((f.interval (g + 1)).onGrid k).2 ≤
      ((f.interval (g + 1)).onGrid k).1.value := by
    rw [← Nat.cast_le (α := ℚ), Nat.cast_add, hlow, hvalue, ← add_one_mul,
      mul_le_mul_iff_left₀ hu, ← sub_nonneg, ← sub_sub, ← sub_div, sub_nonneg, one_le_div hstep]
    linarith
  have hsome : ((f.interval (g + 1)).nearest? tie k).isSome = true :=
    RoundingInterval.isSome_nearest? hinside hunit hfine
  rw [hnone] at hsome
  exact absurd hsome (by simp)

/-- The shortest decimal of a number was found, and with few more digits than its significand. -/
theorem shortest_spec (hprecision : 2 ≤ f.precision) (hbits : f.precision ≤ 53) (tie : Tie)
    (g : Nat) :
    (f.interval (g + 1)).nearest? tie (f.shortest tie (g + 1)).exponent =
        some (f.shortest tie (g + 1)).digits ∧
      (f.shortest tie (g + 1)).digits < 2 ^ (f.precision + 7) := by
  obtain ⟨hhigh, hunit, hfine⟩ := fine_onGrid (g := g + 1) (by omega) hbits (Nat.succ_pos g)
  have hsome : ((f.interval (g + 1)).nearest? tie
      (decimalTop (f.interval (g + 1)).value (f.interval (g + 1)).den - 23)).isSome = true :=
    RoundingInterval.isSome_nearest? hhigh hunit hfine
  obtain ⟨hfound, hfirst⟩ := RoundingInterval.search_spec (by decide : 23 < 24) hsome
  rw [← shortest] at hfound hfirst
  refine ⟨hfound, ?_⟩
  generalize f.shortest tie (g + 1) = d at *
  have hd : d.digits * 10 ^ d.exponent ≤ 2 * f.value (g + 1) :=
    (roundsTo_of_nearest? hprecision hfound).below.trans (middle_le_two_mul_value g)
  have hpow : (10 : ℚ) ^ (d.exponent + 1) = 10 * 10 ^ d.exponent := by
    rw [zpow_add_one₀ (by norm_num), mul_comm]
  have hstep : (0 : ℚ) < 10 ^ d.exponent := by positivity
  have hvalue : f.value (g + 1) ≤ 4 * 2 ^ f.precision * 10 ^ (d.exponent + 1) := by
    have hroom : (1 : ℚ) ≤ 2 ^ f.precision := one_le_pow₀ (by norm_num)
    have hnext : (0 : ℚ) < 10 ^ (d.exponent + 1) := by positivity
    rcases hfirst with htop | hnone
    · have hlt := value_lt_pow_decimalTop (f := f) g
      rw [← htop] at hlt
      nlinarith
    · have hplace := place_lt_of_nearest?_eq_none hnone
      have hsignificand : (f.significand (g + 1) : ℚ) ≤ 2 ^ f.precision := by
        exact_mod_cast (significand_lt (by omega)).le
      calc f.value (g + 1) ≤ 2 ^ f.precision * (4 * 10 ^ (d.exponent + 1)) := by
            rw [value]
            gcongr
        _ = 4 * 2 ^ f.precision * 10 ^ (d.exponent + 1) := by ring
  rw [hpow] at hvalue
  have hlt : (d.digits : ℚ) < (2 ^ (f.precision + 7) : Nat) := by
    push_cast
    rw [pow_add]
    have : (0 : ℚ) < 2 ^ f.precision := by positivity
    refine lt_of_le_of_lt (b := 80 * 2 ^ f.precision) ?_ (by linarith)
    rw [← mul_le_mul_iff_left₀ hstep]
    linarith
  exact_mod_cast hlt

end BinaryFormat

end GrpcContract.Number
