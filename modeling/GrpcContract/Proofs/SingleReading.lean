import GrpcContract.Message.OfJson
import GrpcContract.Proofs.NearMidpoints
import GrpcContract.Proofs.SpelledNumbers

/-!
# Shortest decimals of 32-bit numbers, read as 64-bit numbers

The number read from the shortest decimal of a 32-bit number is not the 32-bit number, and not
always the 64-bit number nearest to the decimal. It still rounds to the 32-bit number: it lies on
the same side of every midpoint as the decimal, or on the midpoint as the decimal does.
-/

namespace GrpcContract.Number

open BinaryFormat

/-! ### Decimals away from all midpoints -/

/-- What lies near a number rounds as it does, if it is on the same side of the midpoints. -/
theorem roundsTo_of_near {v y : ℚ} {g : Nat} (hv : single.RoundsTo v g)
    (hnear : |y - v| ≤ tolerance * v)
    (hmiddle : ∀ h, y = v ∨ tolerance * v < |v - single.middle h|) : single.RoundsTo y g := by
  by_cases heq : y = v
  · exact heq ▸ hv
  have hfar (h : Nat) : tolerance * v < |v - single.middle h| := (hmiddle h).resolve_left heq
  obtain ⟨hlow, hhigh⟩ := abs_le.mp hnear
  refine roundsTo_of_lt (fun h hh => ?_) ?_
  · have hfar := hfar h
    rw [abs_of_nonneg (sub_nonneg.mpr (hv.above h hh))] at hfar
    linarith
  · have hfar := hfar g
    rw [abs_of_nonpos (sub_nonpos.mpr hv.below)] at hfar
    linarith

/-- The upper midpoint in halves of the distance from the lower one. -/
theorem middle_le_mul_sub (g : Nat) : single.middle (g + 1) ≤
    (2 ^ 24 + 1) * (2 * (single.value (g + 1) - single.middle g)) ∧
    single.value (g + 1) - single.middle g ≤ single.middle (g + 1) - single.value (g + 1) := by
  have hvalue := value_succ (f := single) g
  have hmiddle := middle_eq (f := single) g
  have hmiddle' := middle_eq (f := single) (g + 1)
  have hexponent := exponent_eq_of_succ (f := single) g
  have hvalue' : single.value (g + 1) =
    single.significand (g + 1) * 2 ^ single.exponent (g + 1) := rfl
  have hplace : (0 : ℚ) < 2 ^ single.exponent (g + 1) := by positivity
  split at hexponent
  · rename_i hpower
    rw [hexponent, zpow_sub_one₀ (by norm_num)] at hvalue hmiddle
    have hsignificand : (single.significand (g + 1) : ℚ) = 2 ^ 23 := by
      rw [hpower.1]
      norm_cast
    rw [hsignificand] at hvalue'
    constructor <;> linarith
  · rw [hexponent, sub_zero] at hvalue hmiddle
    have hsignificand : (single.significand (g + 1) : ℚ) + 1 ≤ 2 ^ 24 := by
      exact_mod_cast significand_lt (f := single) (g := g + 1) (by decide)
    constructor
    · nlinarith
    · linarith

/-- A decimal with many digits was found well inside the interval. -/
theorem far_of_fewDigits_le {g d : Nat} {tie : Tie} {k : Int} (hd : fewDigits ≤ d)
    (hfound : (single.interval (g + 1)).nearest? tie k = some d) (h : Nat) :
    tolerance * (d * 10 ^ k) < |d * 10 ^ k - single.middle h| := by
  have hround := roundsTo_of_nearest? (by decide) hfound
  have hdistance := distance_of_nearest? hfound
  obtain ⟨hhigh, hhalves⟩ := middle_le_mul_sub g
  have hbelow := hround.below
  have habove := hround.above g rfl
  have hlow := middle_lt_value (f := single) g
  have hstep : (0 : ℚ) < 10 ^ k := by positivity
  have hmany : (2 ^ 24 + 2 ^ 10) * (10 : ℚ) ^ k ≤ d * 10 ^ k := by
    have : (2 ^ 24 + 2 ^ 10 : ℚ) ≤ d := by exact_mod_cast hd
    gcongr
  have hclear : tolerance * (d * 10 ^ k) < d * 10 ^ k - single.middle g ∧
      tolerance * (d * 10 ^ k) < single.middle (g + 1) - d * 10 ^ k := by
    rw [tolerance]
    generalize (d : ℚ) * 10 ^ k = v at *
    rcases hdistance with hnear | ⟨hbefore, hend⟩ | ⟨hafter, hend⟩
    · have hnear' : |v - single.value (g + 1)| ≤ 10 ^ k / 2 := by linarith
      obtain ⟨hfirst, hsecond⟩ := abs_le.mp hnear'
      constructor <;> linarith
    · constructor <;> linarith
    · constructor <;> linarith
  rcases Nat.lt_or_ge g h with hlt | hge
  · have hmono : single.middle (g + 1) ≤ single.middle h := strictMono_middle.monotone hlt
    rw [abs_of_nonpos (by linarith)]
    linarith
  · have hmono : single.middle h ≤ single.middle g := strictMono_middle.monotone hge
    rw [abs_of_nonneg (by linarith)]
    linarith

/-! ### The shortest decimal -/

section Shortest

variable {g n : Nat} {e : Int} {tie : Tie}

theorem value_infinity : single.value single.infinity = 2 ^ 128 := by
  have hsignificand : single.significand single.infinity = 2 ^ 23 := by decide
  have hexponent : single.exponent single.infinity = 105 := by decide
  rw [value, hsignificand, hexponent]
  norm_num

theorem middle_zero : single.middle 0 = 1 / 2 ^ 150 := by
  have hexponent : single.exponent 0 = -149 := by decide
  rw [middle_eq, value_zero, hexponent]
  norm_num

/-- The bounds of the exponent of a decimal for a finite number. -/
theorem exponent_bounds (hg : g + 1 < single.infinity) (hpos : 0 < n) (hn : n < 2 ^ 31)
    (hround : single.RoundsTo (n * 10 ^ e) (g + 1)) : -54 ≤ e ∧ e ≤ 38 := by
  have hlow : 1 / 2 ^ 150 ≤ (n * 10 ^ e : ℚ) :=
    middle_zero ▸ (strictMono_middle.monotone (Nat.zero_le g)).trans (hround.above g rfl)
  have hhigh : (n * 10 ^ e : ℚ) < 2 ^ 128 :=
    value_infinity ▸ hround.below.trans_lt
      ((middle_lt_value (g + 1)).trans_le (strictMono_value.monotone hg))
  have hone : (1 : ℚ) ≤ n := by exact_mod_cast hpos
  have hlt : (n : ℚ) < 2 ^ 31 := by exact_mod_cast hn
  constructor
  · by_contra he
    have hsmall : (10 : ℚ) ^ e ≤ 10 ^ (-55 : Int) :=
      zpow_le_zpow_right₀ (by norm_num) (by omega)
    have hpos : (0 : ℚ) < 10 ^ e := by positivity
    rw [show (10 : ℚ) ^ (-55 : Int) = 1 / 10 ^ 55 by norm_num] at hsmall
    have : (n * 10 ^ e : ℚ) ≤ 2 ^ 31 * (1 / 10 ^ 55) := by gcongr
    norm_num at this hlow
    linarith
  · by_contra he
    have hlarge : (10 : ℚ) ^ 39 ≤ 10 ^ e := by
      rw [← zpow_natCast]
      exact zpow_le_zpow_right₀ (by norm_num) (by omega)
    nlinarith

theorem middle_eq_mul (h : Nat) : single.middle h =
    (2 * single.significand h + 1 : Nat) * 2 ^ (single.exponent h - 1) := by
  rw [middle_eq, value, zpow_sub_one₀ (by norm_num)]
  push_cast
  ring

/-- The shortest decimal of a finite number lies away from every midpoint, or it is the midpoint
and has a small exponent. One decimal is an exception. -/
theorem shortest_clear (hg : g + 1 < single.infinity) (hpos : 0 < n)
    (hn : n ≤ (single.shortest tie (g + 1)).digits)
    (hvalue : (n * 10 ^ e : ℚ) =
      (single.shortest tie (g + 1)).digits * 10 ^ (single.shortest tie (g + 1)).exponent)
    (h : Nat) :
    (n * 10 ^ e : ℚ) = single.middle h ∧ e.natAbs ≤ 10 ∨
      tolerance * (n * 10 ^ e) < |n * 10 ^ e - single.middle h| ∨
      e = -32 ∧ (n = 7038531 ∨ n = 14077062) := by
  obtain ⟨hfound, hdigits⟩ := shortest_spec (f := single) (by decide) (by decide) tie g
  have hprecision : single.precision + 7 = 31 := rfl
  have hround := roundsTo_of_nearest? (by decide) hfound
  rw [hprecision] at hdigits
  rcases Nat.lt_or_ge (single.shortest tie (g + 1)).digits fewDigits with hfew | hmany
  · rw [← hvalue] at hround
    obtain ⟨hlow, hhigh⟩ := exponent_bounds hg hpos (by omega) hround
    have hsignificand : single.significand h < 2 ^ 24 := significand_lt (by decide)
    rw [middle_eq_mul]
    exact eq_or_tolerance_lt _ hpos (by omega) hlow hhigh (by omega)
  · rw [hvalue]
    exact .inr (.inl (far_of_fewDigits_le hmany hfound h))

/-- A midpoint between two 32-bit numbers is a 64-bit number. -/
theorem exists_value_eq_middle (h : Nat) : ∃ i, double.value i = single.middle h := by
  have hsignificand : single.significand h < 2 ^ 24 := significand_lt (by decide)
  have hstep : double.step = 2 ^ 52 := rfl
  have hexponent := minExp_le_exponent (f := single) h
  have hmin : single.minExp = -149 := rfl
  have hmin' : double.minExp = -1074 := rfl
  rw [middle_eq_mul]
  exact exists_value_eq (by omega) (by omega)

/-- The one decimal that lies too close to a midpoint, and its double, are read well. -/
theorem round_reading_exception : ∀ n ∈ [7038531, 14077062], 0 < (reading n (-32)).ratio.1 ∧
    single.round (reading n (-32)).ratio.1 (reading n (-32)).ratio.2 =
      single.round n (10 ^ 32) := by
  decide +kernel

/-- The number read from the shortest decimal rounds to the number that the decimal was found for,
however the decimal is laid out in digits and an exponent. -/
theorem roundsTo_reading_shortest {m : Nat} {k : Int} (hg : g + 1 < single.infinity)
    (hpos : 0 < n) (hn : n ≤ (single.shortest tie (g + 1)).digits)
    (hvalue : (n * 10 ^ e : ℚ) =
      (single.shortest tie (g + 1)).digits * 10 ^ (single.shortest tie (g + 1)).exponent)
    (hlayout : (m * 10 ^ k : ℚ) = n * 10 ^ e) (hm : m < 2 ^ 53) (hk : k.natAbs ≤ 60)
    (hsmall : e.natAbs ≤ 10 → k.natAbs ≤ 22) (hlarge : e = -32 → m = n ∧ k = e) :
    single.RoundsTo (reading m k).abs (g + 1) := by
  obtain ⟨hfound, -⟩ := shortest_spec (f := single) (by decide) (by decide) tie g
  have hround := roundsTo_of_nearest? (by decide) hfound
  rw [← hvalue] at hround
  have hmpos : 0 < m := by
    by_contra hzero
    have hv : (0 : ℚ) < n * 10 ^ e := by
      have hn : (0 : ℚ) < n := by exact_mod_cast hpos
      positivity
    rw [← hlayout, show m = 0 by omega, Nat.cast_zero, zero_mul] at hv
    exact lt_irrefl _ hv
  by_cases hexception : e = -32 ∧ (n = 7038531 ∨ n = 14077062)
  · obtain ⟨rfl, hn⟩ := hexception
    obtain ⟨rfl, rfl⟩ := hlarge rfl
    obtain ⟨hnum, hread⟩ := round_reading_exception m (by simpa using hn)
    obtain ⟨i, hi, hmin⟩ := roundsTo_round (f := single) (by decide) hnum
      (Binary64.ratio_pos (reading m (-32)))
    have hquotient : (m * 10 ^ (-32 : Int) : ℚ) = m / (10 ^ 32 : Nat) := by
      rw [zpow_neg, div_eq_mul_inv]
      norm_cast
    rw [hquotient] at hround
    rw [hread, round_eq (by decide) hmpos (by decide) hround] at hmin
    rw [Binary64.ratio_eq] at hi
    obtain rfl : i = g + 1 := by omega
    exact hi
  · refine roundsTo_of_near hround ?_ fun h => ?_
    · rw [← hlayout]
      exact abs_reading_sub_le hmpos hm hk
    rcases shortest_clear hg hpos hn hvalue h with ⟨heq, he⟩ | hfar | hexception'
    · left
      rw [← hlayout] at heq ⊢
      exact abs_reading_eq hmpos hm (hsmall he) (heq ▸ exists_value_eq_middle h)
    · exact .inr hfar
    · exact absurd hexception' hexception

end Shortest

/-! ### The number that is read -/

/-- The text of a positive 32-bit number is read as a number that rounds to it. -/
theorem roundsTo_reading_spelled {g n : Nat} {e : Int} (hg : g + 1 < single.infinity)
    (hspells : Layout.json32.Spells single (g + 1) n e) :
    0 < n ∧ n < 2 ^ 53 ∧ e.natAbs ≤ 60 ∧ single.RoundsTo (reading n e).abs (g + 1) := by
  obtain ⟨hn, hround, d, hd, hpos, hdigits, hlaid⟩ :=
    hspells.roundsTo (f := single) (by decide) (by decide)
  have hprecision : single.precision + 7 = 31 := rfl
  rw [hprecision] at hdigits
  have hvalue := d.value_stripped
  have hlaidValue := hlaid.value_eq
  have hle := d.digits_stripped_le
  have hpos := Decimal.digits_stripped_pos hpos
  have hbounds := exponent_bounds hg hpos (by omega) (hlaidValue ▸ hround)
  subst hd
  have hreads {m : Nat} {k : Int} :=
    roundsTo_reading_shortest (m := m) (k := k) hg hpos hle hvalue
  rcases hlaid with ⟨rfl, rfl⟩ | ⟨zeros, hzeros, rfl, rfl, hposition⟩
  · exact ⟨hn, by omega, by omega,
      hreads rfl (by omega) (by omega) (by omega) (fun _ => ⟨rfl, rfl⟩)⟩
  · have hlt := Decimal.digits_mul_pow_lt hzeros (hposition (-6) 12 rfl)
    have hm := hlt.trans (show 10 ^ (12 + 2 : Int).toNat < 2 ^ 53 by decide)
    exact ⟨hn, hm, by decide, hreads hlaidValue hm (by decide) (fun _ => by decide) (by omega)⟩

theorem value_greatestSingle :
    double.value Json.greatestSingle = single.value (single.infinity - 1) := by
  have hgreatest : Json.greatestSingle = 0x47EFFFFFE0000000 := by decide
  have hsignificand : double.significand 0x47EFFFFFE0000000 = (2 ^ 24 - 1) * 2 ^ 29 := by decide
  have hexponent : double.exponent 0x47EFFFFFE0000000 = 75 := by decide
  have hsignificand' : single.significand (single.infinity - 1) = 2 ^ 24 - 1 := by decide
  have hexponent' : single.exponent (single.infinity - 1) = 104 := by decide
  rw [hgreatest, value, value, hsignificand, hexponent, hsignificand', hexponent']
  norm_num

/-- The greatest number is read as one that is greater. -/
theorem greatest_lt_reading_spelled {n : Nat} {e : Int}
    (hspells : Layout.json32.Spells single (single.infinity - 1) n e) :
    Json.greatestSingle < (reading n e).magnitude := by
  obtain ⟨hzero, -⟩ | ⟨-, hlaid⟩ := hspells
  · exact absurd hzero (by decide)
  have hshortest : single.shortest .toEven (single.infinity - 1) = ⟨34028235, 31⟩ := by
    decide +kernel
  rw [show Layout.json32.tie = .toEven from rfl, hshortest] at hlaid
  rcases hlaid with ⟨rfl, rfl⟩ | ⟨zeros, -, -, -, hposition⟩
  · decide +kernel
  · exact absurd (hposition (-6) 12 rfl) (by decide)

/-- Any other number is read as one that is not beyond the greatest. -/
theorem le_greatest_of_roundsTo {x : Binary64} {g : Nat} (hround : single.RoundsTo x.abs g)
    (hg : g + 1 < single.infinity) : x.magnitude ≤ Json.greatestSingle := by
  rw [← (strictMono_value (f := double)).le_iff_le, value_greatestSingle]
  calc double.value x.magnitude ≤ single.middle g := hround.below
    _ ≤ single.value (g + 1) := (middle_lt_value g).le
    _ ≤ single.value (single.infinity - 1) := strictMono_value.monotone (by omega)

/-! ### Decimals that are the number -/

theorem five_pow_le {t m k a b : Nat} (hm : 0 < m) (heq : t * 10 ^ k * 2 ^ b = m * 2 ^ a) :
    5 ^ k ≤ m := by
  have hdvd : 5 ^ k ∣ m * 2 ^ a := by
    refine ⟨t * 2 ^ k * 2 ^ b, ?_⟩
    rw [← heq, show (10 : Nat) = 5 * 2 by rfl, Nat.mul_pow]
    ring
  have hcoprime : Nat.Coprime (5 ^ k) (2 ^ a) := Nat.Coprime.pow k a (by decide)
  exact Nat.le_of_dvd hm (hcoprime.dvd_of_dvd_mul_right hdvd)

/-- A decimal that is a number exactly has a small power of ten, if its digits and the significand
of the number are not too large: a power of five divides one of them. -/
theorem natAbs_le_of_eq {n s : Nat} {e q : Int} (hn : 0 < n) (hn' : n < 2 ^ 53) (hs : 0 < s)
    (hs' : s < 2 ^ 53) (heq : (n * 10 ^ e : ℚ) = s * 2 ^ q) : e.natAbs ≤ 22 := by
  have hsmall {m k : Nat} (hm : m < 2 ^ 53) (hfive : 5 ^ k ≤ m) : k ≤ 22 := by
    by_contra hlarge
    have hpow : 5 ^ 23 ≤ 5 ^ k := Nat.pow_le_pow_right (by decide) (by omega)
    exact absurd (hpow.trans hfive) (by omega)
  have hplaces : (2 : ℚ) ^ q * 2 ^ (-q).toNat = 2 ^ q.toNat := by
    rw [← zpow_natCast, ← zpow_natCast, ← zpow_add₀ (by norm_num)]
    congr 1
    omega
  rcases Int.le_total 0 e with hnonneg | hneg
  · obtain ⟨k, rfl⟩ := Int.eq_ofNat_of_zero_le hnonneg
    rw [zpow_natCast] at heq
    have hwhole : n * 10 ^ k * 2 ^ (-q).toNat = s * 2 ^ q.toNat := by
      rw [← Nat.cast_inj (R := ℚ)]
      push_cast
      rw [heq, mul_assoc, hplaces]
    exact hsmall hs' (five_pow_le hs hwhole)
  · obtain ⟨k, rfl⟩ : ∃ k : Nat, e = -k := ⟨e.natAbs, by omega⟩
    rw [zpow_neg, zpow_natCast, ← div_eq_mul_inv, div_eq_iff (by positivity)] at heq
    have hwhole : s * 10 ^ k * 2 ^ q.toNat = n * 2 ^ (-q).toNat := by
      rw [← Nat.cast_inj (R := ℚ)]
      push_cast
      rw [heq, ← hplaces]
      ring
    rw [Int.natAbs_neg, Int.natAbs_natCast]
    exact hsmall hn' (five_pow_le hn hwhole)

namespace Binary32

/-- The absolute value of a finite number. -/
def abs (x : Binary32) : ℚ :=
  single.value x.magnitude

theorem ratio_eq (x : Binary32) : (x.ratio.1 : ℚ) / x.ratio.2 = x.abs := by
  rw [ratio, scaled_eq, abs, value, Nat.cast_one, div_one]

theorem ratio_pos (x : Binary32) : 0 < x.ratio.2 :=
  scaled_snd_pos _ Nat.one_pos _

variable {x : Binary32}

theorem isNegative_toBinary64 (hfinite : x.isFinite = true) :
    x.toBinary64.isNegative = x.isNegative := by
  rw [toBinary64, if_pos hfinite, Binary64.isNegative_ofRatio]

/-- A finite number is a number of 64 bits. -/
theorem abs_toBinary64 (hfinite : x.isFinite = true) : x.toBinary64.abs = x.abs := by
  have hlt : x.abs < double.middle (double.infinity - 1) :=
    calc x.abs < single.value single.infinity := strictMono_value (of_decide_eq_true hfinite)
      _ = 2 ^ (128 : Int) := by rw [value_infinity]; norm_num
      _ ≤ 2 ^ (1023 : Int) := zpow_le_zpow_right₀ (by norm_num) (by norm_num)
      _ < double.middle (double.infinity - 1) := Binary64.pow_lt_middle_greatest
  obtain ⟨i, hi⟩ : ∃ i, double.value i = x.abs := by
    have hsignificand : single.significand x.magnitude < 2 ^ 24 := significand_lt (by decide)
    have hstep : double.step = 2 ^ 52 := rfl
    exact exists_value_eq (by omega)
      ((show double.minExp ≤ single.minExp by decide).trans (minExp_le_exponent _))
  have hround : double.RoundsTo (x.ratio.1 / x.ratio.2 : ℚ) i := by
    rw [ratio_eq, ← hi]
    exact roundsTo_value i
  have hinfinite : i ≤ double.infinity - 1 := hround.lt_of_lt (by rwa [ratio_eq])
  rw [toBinary64, if_pos hfinite, Binary64.abs, Binary64.magnitude_ofRatio, ← hi]
  rcases Nat.eq_zero_or_pos x.ratio.1 with hzero | hpos
  · rw [hzero, BinaryFormat.round, if_pos rfl, value_zero, hi, ← ratio_eq, hzero, Nat.cast_zero,
      zero_div]
  · rw [round_eq (by decide) hpos x.ratio_pos hround, Nat.min_eq_right (by omega)]

end Binary32

/-- A decimal with few digits that is a 32-bit number has a small power of ten. -/
theorem natAbs_le_of_spelled {x : Binary32} {n : Nat} {e : Int} (hpos : 0 < n) (hn : n < 2 ^ 53)
    (hspelled : n * 10 ^ e = x.abs) : e.natAbs ≤ 22 := by
  have hsignificand : 0 < single.significand x.magnitude := by
    have hpositive : (0 : ℚ) < n * 10 ^ e := by
      have hn : (0 : ℚ) < n := by exact_mod_cast hpos
      positivity
    by_contra hle
    have hzero : single.significand x.magnitude = 0 := by omega
    rw [hspelled, Binary32.abs, value, hzero, Nat.cast_zero, zero_mul] at hpositive
    exact lt_irrefl _ hpositive
  have hbits : single.significand x.magnitude < 2 ^ 24 := significand_lt (by decide)
  exact natAbs_le_of_eq hpos hn hsignificand (by omega) hspelled

/-! ### The number that is read, under its sign -/

/-- What the text of a 32-bit number is read as: a 64-bit number that rounds to it, in the range of
32 bits unless it was read from the greatest number, and equal to it if the text spells nothing
else. -/
structure ReadsSingle (l : Literal) (x : Binary32) (y : Binary64) : Prop where
  read : l.scale? = some y
  toBinary32 : y.toBinary32 = x
  range : y.magnitude ≤ Json.greatestSingle ↔ x.magnitude ≠ single.infinity - 1
  eq_of_spelled : l.digits * 10 ^ l.scaleExponent = x.abs → y = x.toBinary64

section ReadsSingle

variable {x : Binary32} {l : Literal}

theorem readsSingle_zero (hg : x.magnitude = 0) (hsign : l.negative = x.isNegative)
    (hzero : l.digits = 0) : ReadsSingle l x (.ofParts l.negative 0) := by
  have hx : Binary32.ofParts l.negative 0 = x := by rw [hsign, ← hg, x.ofParts_magnitude]
  refine ⟨l.scale?_eq_zero hzero, ?_, ?_, fun _ => ?_⟩
  all_goals
    rw [← hx]
    cases l.negative <;> decide

/-- The text of every finite 32-bit number is read as a number. -/
theorem exists_readsSingle (hfinite : x.isFinite = true) (hsign : l.negative = x.isNegative)
    (hspells : Layout.json32.Spells single x.magnitude l.digits l.scaleExponent) :
    ∃ y, ReadsSingle l x y := by
  have hlt : x.magnitude < single.infinity := of_decide_eq_true hfinite
  cases hg : x.magnitude with
  | zero =>
      rw [hg] at hspells
      obtain ⟨-, hzero, -⟩ | ⟨hpos, -⟩ := hspells
      · exact ⟨_, readsSingle_zero hg hsign hzero⟩
      · exact absurd hpos (by omega)
  | succ g =>
      rw [hg] at hspells hlt
      obtain ⟨hpos, hm, he, hround⟩ := roundsTo_reading_spelled hlt hspells
      have hread := isFinite_reading_of_readable (readable_of_few hpos hm he)
      have hmagnitude := Binary64.magnitude_signed l.negative hread
      have hnegative := Binary64.isNegative_signed l.negative hread (isNegative_reading ..)
      have habs : 0 < (reading l.digits l.scaleExponent).abs :=
        lt_of_lt_of_le (by rw [middle_zero]; positivity)
          ((strictMono_middle.monotone (Nat.zero_le g)).trans (hround.above g rfl))
      refine ⟨_, Literal.scale?_eq hpos (hm.trans (by norm_num)) (by omega) hread, ?_, ?_, ?_⟩
      · have hback := Binary64.toBinary32_eq (x := if l.negative then _ else _)
          (by rwa [Binary64.abs, hmagnitude]) (by rwa [Binary64.abs, hmagnitude]) hlt.le
        rw [hback, hnegative, hsign, ← hg, x.ofParts_magnitude]
      · rw [hmagnitude, hg]
        constructor
        · intro hle hgreatest
          rw [hgreatest] at hspells
          exact absurd (greatest_lt_reading_spelled hspells) (by omega)
        · intro hne
          exact le_greatest_of_roundsTo hround (by omega)
      · intro hspelled
        have hsmall := natAbs_le_of_spelled hpos hm hspelled
        rw [← Binary32.abs_toBinary64 hfinite] at hspelled
        refine Binary64.eq_of_magnitude_eq ?_ ?_
        · rw [hnegative, hsign, Binary32.isNegative_toBinary64 hfinite]
        · rw [hmagnitude]
          exact strictMono_value.injective
            ((abs_reading_eq hpos hm hsmall ⟨_, hspelled.symm⟩).trans hspelled)

end ReadsSingle

end GrpcContract.Number
