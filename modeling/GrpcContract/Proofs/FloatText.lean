import GrpcContract.Json.Printer
import GrpcContract.Proofs.JsonText
import GrpcContract.Proofs.ShortestDigits

/-!
# Text of floating-point numbers

Every finite floating-point number is written as a number of the JSON grammar: with digits before
the point, no zero too many among them, and digits after it. So its text is read as some number,
which may be a neighbour of it.
-/

namespace GrpcContract

open Number

/-! ### Digits of a decimal -/

namespace Number

theorem Decimal.parts_prefix (d : Decimal) : d.parts.1 <+: Nat.toDigits 10 d.digits := by
  rw [← List.reverse_suffix]
  simpa [parts] using List.dropWhile_suffix (l := (Nat.toDigits 10 d.digits).reverse) (· == '0')

theorem Decimal.isDigit_of_mem_parts {d : Decimal} {c : Char} (hmem : c ∈ d.parts.1) :
    c.isDigit = true :=
  Text.isDigit_of_mem_toDigits (d.parts_prefix.subset hmem)

/-- Only zeros are dropped from the digits of a decimal. -/
theorem Decimal.exists_toDigits_eq (d : Decimal) :
    ∃ zeros, Nat.toDigits 10 d.digits = d.parts.1 ++ List.replicate zeros '0' := by
  have hsplit := List.takeWhile_append_dropWhile (p := (· == '0'))
    (l := (Nat.toDigits 10 d.digits).reverse)
  have hzeros : (Nat.toDigits 10 d.digits).reverse.takeWhile (· == '0') =
      List.replicate ((Nat.toDigits 10 d.digits).reverse.takeWhile (· == '0')).length '0' :=
    List.eq_replicate_iff.mpr ⟨rfl, fun c hc => by simpa using List.mem_takeWhile_imp hc⟩
  rw [hzeros] at hsplit
  refine ⟨((Nat.toDigits 10 d.digits).reverse.takeWhile (· == '0')).length, ?_⟩
  rw [parts, ← List.reverse_replicate, ← List.reverse_append, hsplit, List.reverse_reverse]

/-- The digits of a decimal that is not zero: there are some, and they do not start with a zero. -/
theorem Decimal.digits_parts {d : Decimal} (hpos : 0 < d.digits) :
    ∃ c cs, d.parts.1 = c :: cs ∧ c ≠ '0' := by
  obtain ⟨zeros, hdigits⟩ := d.exists_toDigits_eq
  have hhead := Text.head?_toDigits_ne_zero (Nat.ne_of_gt hpos)
  rw [hdigits] at hhead
  cases hparts : d.parts.1 with
  | nil =>
      -- A number whose digits are all dropped is zero.
      have hvalue := Text.natOfDigits_toDigits d.digits
      rw [hdigits, hparts, List.nil_append, Text.natOfDigits_replicate_zero] at hvalue
      omega
  | cons c cs => exact ⟨c, cs, rfl, by simpa [hparts] using hhead⟩

/-- A decimal without zeros at the end of its digits. -/
def Decimal.stripped (d : Decimal) : Decimal :=
  ⟨Text.natOfDigits d.parts.1, d.parts.2 + 1 - d.parts.1.length⟩

theorem Decimal.exists_stripped_eq (d : Decimal) : ∃ zeros : Nat,
    d.stripped.digits * 10 ^ zeros = d.digits ∧ d.stripped.exponent = d.exponent + zeros := by
  obtain ⟨zeros, hdigits⟩ := d.exists_toDigits_eq
  refine ⟨zeros, ?_, ?_⟩
  · have hvalue := Text.natOfDigits_toDigits d.digits
    rwa [hdigits, Text.natOfDigits_append, Text.natOfDigits_replicate_zero,
      List.length_replicate] at hvalue
  · have hlength := congrArg List.length hdigits
    rw [List.length_append, List.length_replicate] at hlength
    simp only [stripped, parts] at hlength ⊢
    omega

theorem Decimal.digits_stripped_le (d : Decimal) : d.stripped.digits ≤ d.digits := by
  obtain ⟨zeros, hdigits, -⟩ := d.exists_stripped_eq
  rw [← hdigits]
  exact Nat.le_mul_of_pos_right _ (Nat.pow_pos (by decide))

theorem Decimal.digits_stripped_pos {d : Decimal} (hpos : 0 < d.digits) :
    0 < d.stripped.digits := by
  obtain ⟨zeros, hdigits, -⟩ := d.exists_stripped_eq
  exact Nat.pos_of_mul_pos_right (hdigits ▸ hpos)

/-- A whole number that is written out up to some exponent has few digits. -/
theorem Decimal.digits_mul_pow_lt {d : Decimal} {zeros : Nat} {hi : Int}
    (hzeros : d.stripped.exponent = zeros) (hposition : d.parts.2 ≤ hi) :
    d.stripped.digits * 10 ^ (zeros + 1) < 10 ^ (hi + 2).toNat := by
  have hlt : d.stripped.digits < 10 ^ d.parts.1.length :=
    Text.natOfDigits_lt fun c hc => isDigit_of_mem_parts hc
  have hlength : d.parts.2 + 1 - d.parts.1.length = zeros := hzeros
  calc d.stripped.digits * 10 ^ (zeros + 1)
      < 10 ^ d.parts.1.length * 10 ^ (zeros + 1) :=
        Nat.mul_lt_mul_of_pos_right hlt (Nat.pow_pos (by decide))
    _ = 10 ^ (d.parts.1.length + (zeros + 1)) := (Nat.pow_add ..).symm
    _ ≤ 10 ^ (hi + 2).toNat := Nat.pow_le_pow_right (by decide) (by omega)

end Number

namespace Json

/-! ### Texts of the grammar of numbers -/

/-- Whether a text is a number of the grammar, without a sign: one with a point or an exponent,
digits that make up `n`, and the power of ten `e`. -/
def Denotes (cs : List Char) (n : Nat) (e : Int) : Prop :=
  ∀ negative, ∃ l : Literal, readLiteral negative cs = some (l, []) ∧ l.negative = negative ∧
    l.isInteger = false ∧ l.digits = n ∧ l.scaleExponent = e

theorem denotes_of_parts (whole fraction : List Char) {rest : List Char} {e? : Option Int}
    (hne : whole ≠ [])
    (hwhole : ∀ c ∈ whole, c.isDigit = true) (hzero : whole.length = 1 ∨ whole.head? ≠ some '0')
    (hfraction : fraction ≠ []) (hdigits : ∀ c ∈ fraction, c.isDigit = true)
    (hhead : ∀ c ∈ rest.head?, c.isDigit = false) (hexponent : readExponent rest = some (e?, [])) :
    Denotes (whole ++ '.' :: (fraction ++ rest)) (Text.natOfDigits (whole ++ fraction))
      (e?.getD 0 - fraction.length) := by
  intro negative
  refine ⟨⟨negative, whole, fraction, e?⟩, readLiteral_eq_some_iff.mpr
    ⟨'.' :: (fraction ++ rest), rest, ?_, hzero, ?_, hexponent, rfl⟩, rfl, ?_, rfl, rfl⟩
  · exact readDigits_of_digits _ _ hne hwhole (by simp)
  · exact readDigits_of_digits _ _ hfraction hdigits hhead
  · cases fraction with
    | nil => exact absurd rfl hfraction
    | cons c cs => rfl

theorem denotes_of_fraction (whole fraction : List Char) (hne : whole ≠ [])
    (hwhole : ∀ c ∈ whole, c.isDigit = true) (hzero : whole.length = 1 ∨ whole.head? ≠ some '0')
    (hfraction : fraction ≠ []) (hdigits : ∀ c ∈ fraction, c.isDigit = true) :
    Denotes (whole ++ '.' :: fraction) (Text.natOfDigits (whole ++ fraction))
      (-fraction.length) := by
  have hexponent : readExponent [] = some (none, []) := rfl
  simpa using denotes_of_parts whole fraction hne hwhole hzero hfraction hdigits (by simp) hexponent

/-- One digit with an exponent. -/
theorem denotes_of_digit {c : Char} {rest : List Char} {e : Int} (hdigit : c.isDigit = true)
    (hhead : ∀ c ∈ rest.head?, c.isDigit = false ∧ c ≠ '.')
    (hexponent : readExponent rest = some (some e, [])) :
    Denotes (c :: rest) (Text.natOfDigits [c]) e := by
  intro negative
  have hfraction : readFraction rest = some ([], rest) := by
    unfold readFraction
    split
    · exact absurd rfl (hhead '.' (by simp)).2
    · rfl
  refine ⟨⟨negative, [c], [], some e⟩, readLiteral_eq_some_iff.mpr
    ⟨rest, rest, ?_, .inl rfl, hfraction, hexponent, rfl⟩, rfl, rfl, rfl, ?_⟩
  · exact readDigits_of_digits [c] rest (by simp) (by simpa using hdigit) fun c hc => (hhead c hc).1
  · simp [Literal.scaleExponent]

theorem readExponent_written (e : Int) :
    readExponent ('e' :: (if e < 0 then '-' else '+') :: Nat.toDigits 10 e.natAbs) =
      some (some e, []) := by
  have hdigits : readDigits (Nat.toDigits 10 e.natAbs) = some (Nat.toDigits 10 e.natAbs, []) := by
    simpa using readDigits_of_digits _ [] Nat.toDigits_ne_nil
      (fun c hc => Text.isDigit_of_mem_toDigits hc) (by simp)
  rw [readExponent_cons, if_pos (by decide)]
  by_cases hneg : e < 0
  · simp [hneg, splitSign, hdigits, signedExponent, abs_of_neg]
  · simp [hneg, splitSign, hdigits, signedExponent]
    omega

/-- A number of the grammar is read as one in front of anything that ends it, with a sign or
without. -/
theorem standsFor_of_readLiteral {cs : List Char} {negative : Bool} {l : Literal}
    (hread : readLiteral negative cs = some (l, [])) :
    StandsFor ((if negative then ['-'] else []) ++ cs) (ofLiteral l) := by
  refine .ofReadAtom fun rest hend => ?_
  have happend := readLiteral_append hread hend
  cases negative with
  | true => simp [readAtom, happend]
  | false =>
      obtain ⟨afterWhole, -, hdigits, -⟩ := readLiteral_eq_some_iff.mp hread
      cases cs with
      | nil => simp [readDigits] at hdigits
      | cons c cs =>
          have hdigit : c.isDigit = true := by
            by_contra hdigit
            simp [readDigits, hdigit] at hdigits
          simp only [Bool.false_eq_true, ↓reduceIte, List.nil_append, List.cons_append] at happend ⊢
          rw [readAtom_of_isDigit _ hdigit, happend]
          rfl

end Json

/-! ### Layouts -/

namespace Number

open Json

/-- Digits and a power of ten that are those of a decimal, or the digits with some zeros and one
more after the point. -/
def Decimal.LaidOut (d : Decimal) (l : Layout) (n : Nat) (e : Int) : Prop :=
  n = d.stripped.digits ∧ e = d.stripped.exponent ∨
    ∃ zeros : Nat, d.stripped.exponent = zeros ∧ n = d.stripped.digits * 10 ^ (zeros + 1) ∧ e = -1 ∧
      ∀ lo hi, l.positional = some (lo, hi) → d.parts.2 ≤ hi

section Layouts

variable {l : Layout} {d : Decimal}

theorem isDigit_of_mem_zeros {n : Nat} {c : Char} (hc : c ∈ List.replicate n '0') :
    c.isDigit = true := by
  rw [(List.mem_replicate.mp hc).2]
  decide

theorem exists_denotes_writePositional (hpoint : l.fraction = true) (hpos : 0 < d.digits)
    (hposition : ∀ lo hi, l.positional = some (lo, hi) → d.parts.2 ≤ hi) :
    ∃ n e, Denotes (l.writePositional d.parts.1 d.parts.2) n e ∧ d.LaidOut l n e := by
  obtain ⟨c, cs, hcons, hc⟩ := d.digits_parts hpos
  have hds : ∀ c ∈ d.parts.1, c.isDigit = true := fun c hc => Decimal.isDigit_of_mem_parts hc
  have hstripped : d.stripped = ⟨Text.natOfDigits d.parts.1, d.parts.2 + 1 - d.parts.1.length⟩ :=
    rfl
  unfold Layout.writePositional Decimal.LaidOut
  generalize d.parts.1 = ds at *
  generalize d.parts.2 = e at *
  rw [hstripped]
  split
  · have hfraction : ∀ c ∈ List.replicate (-e - 1).toNat '0' ++ ds, c.isDigit = true := fun c hc =>
      (List.mem_append.mp hc).elim isDigit_of_mem_zeros (hds c)
    refine ⟨_, _, denotes_of_fraction ['0'] (List.replicate (-e - 1).toNat '0' ++ ds) (by simp)
      (by simp) (.inl rfl) (by simp [hcons]) hfraction, .inl ⟨?_, ?_⟩⟩
    · rw [Text.natOfDigits_append, Text.natOfDigits_append, Text.natOfDigits_replicate_zero]
      simp [Text.natOfDigits]
    · simp
      omega
  · have hwhole : ∀ c ∈ ds.take (e.toNat + 1) ++ List.replicate (e.toNat + 1 - ds.length) '0',
        c.isDigit = true := fun c hc =>
      (List.mem_append.mp hc).elim (fun hc => hds c (List.mem_of_mem_take hc)) isDigit_of_mem_zeros
    simp only
    split
    · rename_i hdrop
      have hlength : ds.length ≤ e.toNat + 1 := List.drop_eq_nil_iff.mp hdrop
      refine ⟨_, _, denotes_of_fraction _ _ (by simp [hcons]) hwhole (.inr (by simp [hcons, hc]))
        (by simp) (by simp), .inr ⟨e.toNat + 1 - ds.length, ?_, ?_, by simp, hposition⟩⟩
      · omega
      · rw [List.take_of_length_le hlength, Text.natOfDigits_append, Text.natOfDigits_append,
          Text.natOfDigits_replicate_zero]
        simp [Text.natOfDigits, Nat.pow_succ, Nat.mul_assoc]
    · rename_i hdrop
      have hlength : e.toNat + 1 < ds.length := by
        by_contra hle
        exact hdrop (List.drop_eq_nil_iff.mpr (by omega))
      refine ⟨_, _, denotes_of_fraction _ _ (by simp [hcons]) hwhole (.inr (by simp [hcons, hc]))
        hdrop (fun c hc => hds c (List.mem_of_mem_drop hc)), .inl ⟨?_, ?_⟩⟩
      · rw [show e.toNat + 1 - ds.length = 0 by omega, List.replicate_zero, List.append_nil,
          List.take_append_drop]
      · simp
        omega

theorem denotes_writeScientific (hpos : 0 < d.digits) :
    Denotes (writeScientific d.parts.1 d.parts.2) d.stripped.digits d.stripped.exponent := by
  obtain ⟨c, cs, hcons, -⟩ := d.digits_parts hpos
  have hds : ∀ c ∈ d.parts.1, c.isDigit = true := fun c hc => Decimal.isDigit_of_mem_parts hc
  have hexponent := readExponent_written d.parts.2
  have hstripped : d.stripped = ⟨Text.natOfDigits d.parts.1, d.parts.2 + 1 - d.parts.1.length⟩ :=
    rfl
  rw [hstripped]
  generalize d.parts.1 = ds at *
  generalize d.parts.2 = e at *
  subst hcons
  unfold writeScientific
  cases cs with
  | nil =>
      have hdigit := denotes_of_digit (hds c (by simp)) (by simp) hexponent
      simpa using hdigit
  | cons c' cs =>
      have hparts := denotes_of_parts [c] (c' :: cs) (by simp)
        (by simpa using hds c (by simp)) (.inl rfl) (by simp) (fun c hc => hds c (by simp [hc]))
        (by simp) hexponent
      have hplace : e + 1 - ((c :: c' :: cs).length : Int) = e - (c' :: cs).length := by
        simp only [List.length_cons]
        omega
      simpa [hplace] using hparts

theorem exists_denotes_write (hpoint : l.fraction = true) (hpos : 0 < d.digits) :
    ∃ n e, Denotes (l.write d) n e ∧ d.LaidOut l n e := by
  unfold Layout.write
  simp only
  split
  · rename_i lo hi hposition
    split
    · rename_i hrange
      refine exists_denotes_writePositional hpoint hpos fun lo' hi' heq => ?_
      rw [hposition] at heq
      grind
    · exact ⟨_, _, denotes_writeScientific hpos, .inl ⟨rfl, rfl⟩⟩
  · rename_i hposition
    exact exists_denotes_writePositional hpoint hpos fun lo hi heq => by simp [hposition] at heq

/-- The digits and the power of ten in the text of a magnitude: those of zero, or those of the
shortest decimal as it is laid out. -/
def Layout.Spells (l : Layout) (f : BinaryFormat) (g n : Nat) (e : Int) : Prop :=
  g = 0 ∧ n = 0 ∧ e = -1 ∨ 0 < g ∧ (f.shortest l.tie g).LaidOut l n e

theorem exists_denotes_writeMagnitude (hpoint : l.fraction = true) {f : BinaryFormat}
    (hprecision : 0 < f.precision) (hbits : f.precision ≤ 53) (g : Nat) :
    ∃ n e, Denotes (l.writeMagnitude f g) n e ∧ l.Spells f g n e := by
  unfold Layout.writeMagnitude
  split
  · rename_i hg
    have hzero := denotes_of_fraction ['0'] ['0'] (by simp) (by simp)
      (.inl rfl) (by simp) (by simp)
    refine ⟨_, _, ?_, .inl ⟨hg, rfl, rfl⟩⟩
    simpa [hpoint, Text.natOfDigits] using hzero
  · rename_i hg
    have hg := Nat.pos_of_ne_zero hg
    obtain ⟨n, e, hdenotes, hlaid⟩ := exists_denotes_write hpoint
      (f.digits_shortest_pos hprecision hbits l.tie hg)
    exact ⟨n, e, hdenotes, .inr ⟨hg, hlaid⟩⟩

end Layouts

/-- A literal is what is written for a magnitude under a sign: it is read from the text, and it
spells the magnitude. -/
structure Layout.Writes (l : Layout) (f : BinaryFormat) (negative : Bool) (g : Nat)
    (literal : Literal) : Prop where
  read : readLiteral negative (l.writeMagnitude f g) = some (literal, [])
  negative : literal.negative = negative
  isInteger : literal.isInteger = false
  spells : l.Spells f g literal.digits literal.scaleExponent

theorem exists_writes {l : Layout} (hpoint : l.fraction = true) {f : BinaryFormat}
    (hprecision : 0 < f.precision) (hbits : f.precision ≤ 53) (negative : Bool) (g : Nat) :
    ∃ literal, l.Writes f negative g literal := by
  obtain ⟨n, e, hdenotes, hspells⟩ := exists_denotes_writeMagnitude hpoint hprecision hbits g
  obtain ⟨literal, hread, hsign, hinteger, rfl, rfl⟩ := hdenotes negative
  exact ⟨literal, hread, hsign, hinteger, hspells⟩

theorem Layout.Writes.standsFor_write32 {l : Layout} {x : Binary32} {literal : Literal}
    (hwrites : l.Writes .single x.isNegative x.magnitude literal) :
    StandsFor (l.write32 x).toList (ofLiteral literal) := by
  rw [write32, String.toList_ofList]
  exact standsFor_of_readLiteral hwrites.read

theorem Layout.Writes.standsFor_write64 {l : Layout} {x : Binary64} {literal : Literal}
    (hwrites : l.Writes .double x.isNegative x.magnitude literal) :
    StandsFor (l.write64 x).toList (ofLiteral literal) := by
  rw [write64, String.toList_ofList]
  exact standsFor_of_readLiteral hwrites.read

end Number

theorem Json.limitDepth_ofLiteral (n : Nat) (l : Literal) :
    (ofLiteral l).limitDepth n = ofLiteral l := by
  unfold ofLiteral
  split <;> cases n <;> rfl

end GrpcContract
