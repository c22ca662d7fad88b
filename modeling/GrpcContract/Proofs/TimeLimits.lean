import GrpcContract.Proofs.Numerals
import GrpcContract.Proofs.Percent
import GrpcContract.Rpc.Timeout

/-!
# Announced time limits

A text is read as a time limit exactly if it is one to eight digits and the letter of a unit, and the
limit is that number of units. Reading goes wrong, beyond refusing a text, exactly if the text ends
with a character of several bytes; the value of a header never does.
-/

namespace GrpcContract.Timeout

/-! ### The form of a time limit -/

inductive TimeUnit
  | hour
  | minute
  | second
  | millisecond
  | microsecond
  | nanosecond
deriving DecidableEq

namespace TimeUnit

def letter : TimeUnit → Char
  | hour => 'H'
  | minute => 'M'
  | second => 'S'
  | millisecond => 'm'
  | microsecond => 'u'
  | nanosecond => 'n'

def nanos : TimeUnit → Nat
  | hour => 60 * 60 * 1000000000
  | minute => 60 * 1000000000
  | second => 1000000000
  | millisecond => 1000000
  | microsecond => 1000
  | nanosecond => 1

theorem unit?_eq_some_iff {c : Char} {n : Nat} :
    unit? c = some n ↔ ∃ unit : TimeUnit, c = unit.letter ∧ n = unit.nanos := by
  constructor
  · intro hunit
    unfold unit? at hunit
    split at hunit
    · exact ⟨hour, rfl, (Option.some.inj hunit).symm⟩
    · exact ⟨minute, rfl, (Option.some.inj hunit).symm⟩
    · exact ⟨second, rfl, (Option.some.inj hunit).symm⟩
    · exact ⟨millisecond, rfl, (Option.some.inj hunit).symm⟩
    · exact ⟨microsecond, rfl, (Option.some.inj hunit).symm⟩
    · exact ⟨nanosecond, rfl, (Option.some.inj hunit).symm⟩
    · cases hunit
  · rintro ⟨unit, rfl, rfl⟩
    cases unit <;> rfl

theorem utf8Size_letter (unit : TimeUnit) : unit.letter.utf8Size = 1 := by
  cases unit <;> rfl

end TimeUnit

/-- Whether a text consists of certain digits, one to eight, and the letter of a unit. -/
structure Spells (s : String) (digits : List Char) (unit : TimeUnit) : Prop where
  toList_eq : s.toList = digits ++ [unit.letter]
  ne_nil : digits ≠ []
  length_le : digits.length ≤ 8
  isDigit : ∀ c ∈ digits, c.isDigit = true

/-- Whether a text announces a time limit of a number of nanoseconds. -/
def Announces (s : String) (n : Nat) : Prop :=
  ∃ digits unit, Spells s digits unit ∧ n = Nat.ofDigitChars 10 digits 0 * unit.nanos

/-! ### The cut before the unit -/

variable {s : String} {digits : List Char} {last : Char}

theorem eq_append_singleton (hs : s.toList = digits ++ [last]) :
    s = String.ofList digits ++ String.singleton last := by
  simp [← String.toList_inj, hs]

theorem utf8ByteSize_of_concat (hs : s.toList = digits ++ [last]) :
    s.utf8ByteSize = (String.ofList digits).utf8ByteSize + last.utf8Size := by
  rw [eq_append_singleton hs, String.utf8ByteSize_append, String.utf8ByteSize_singleton]

/-- A text can be cut before its last byte exactly if its last character has no other. -/
theorem isValid_cut_iff (hs : s.toList = digits ++ [last]) :
    String.Pos.Raw.IsValid s ⟨s.utf8ByteSize - 1⟩ ↔ last.utf8Size = 1 := by
  have hsize := utf8ByteSize_of_concat hs
  have hpos := last.utf8Size_pos
  rw [String.Pos.Raw.isValid_iff_exists_append]
  constructor
  · rintro ⟨front, back, rfl, hcut⟩
    have hcut : (front ++ back).utf8ByteSize - 1 = front.utf8ByteSize :=
      congrArg String.Pos.Raw.byteIdx hcut
    rw [String.utf8ByteSize_append] at hcut hsize
    have hback : back.utf8ByteSize = 1 := by omega
    rcases List.eq_nil_or_concat back.toList with hnil | ⟨ds, c, hconcat⟩
    · rw [String.toList_eq_nil_iff] at hnil
      subst hnil
      cases hback
    · rw [List.concat_eq_append] at hconcat
      rw [String.toList_append, hconcat, ← List.append_assoc] at hs
      obtain rfl : c = last := List.singleton_inj.mp (List.append_inj_right' hs rfl)
      have hsplit := utf8ByteSize_of_concat hconcat
      have hpos := c.utf8Size_pos
      omega
  · intro hone
    refine ⟨String.ofList digits, String.singleton last, eq_append_singleton hs, ?_⟩
    rw [hsize, hone]
    rfl

/-! ### Reading -/

/-- Reading looks at the last character first: one of several bytes cannot be cut off. -/
theorem read_of_concat (hs : s.toList = digits ++ [last]) : read s =
    if last.utf8Size ≠ 1 then .split
    else if digits.isEmpty || 8 < digits.length || !digits.all Char.isDigit then .malformed
    else match unit? last with
      | some unit => .nanos (Text.natOfDigits digits * unit)
      | none => .malformed := by
  have hsize := utf8ByteSize_of_concat hs
  have hpos := last.utf8Size_pos
  unfold read
  simp only [hs, List.reverse_append, List.reverse_cons, List.reverse_nil, List.nil_append,
    List.cons_append, List.isEmpty_reverse, List.length_reverse, List.all_reverse,
    List.reverse_reverse]
  by_cases hshort : s.utf8ByteSize < 2
  · have hnil : digits = [] := by
      have hnone : (String.ofList digits).utf8ByteSize = 0 := by omega
      simpa using String.utf8ByteSize_eq_zero_iff.mp hnone
    have hone : last.utf8Size = 1 := by omega
    simp [hnil, hshort, hone]
  · exact if_neg hshort

theorem read_of_nil (hs : s.toList = []) : read s = .malformed := by
  simp [read, hs]

theorem read_of_spells {unit : TimeUnit} (hspells : Spells s digits unit) :
    read s = .nanos (Nat.ofDigitChars 10 digits 0 * unit.nanos) := by
  obtain ⟨hchars, hne, hle, hdigits⟩ := hspells
  have hform : (digits.isEmpty || decide (8 < digits.length) || !digits.all Char.isDigit) =
      false := by
    simp [hne, hle, List.all_eq_true.mpr hdigits]
  rw [read_of_concat hchars, if_neg (not_not.mpr unit.utf8Size_letter), hform,
    TimeUnit.unit?_eq_some_iff.mpr ⟨unit, rfl, rfl⟩]
  rfl

theorem announces_of_read {n : Nat} (hread : read s = .nanos n) : Announces s n := by
  rcases List.eq_nil_or_concat s.toList with hs | ⟨digits, last, hs⟩
  · rw [read_of_nil hs] at hread
    cases hread
  · rw [List.concat_eq_append] at hs
    rw [read_of_concat hs] at hread
    split at hread
    · cases hread
    · split at hread
      · cases hread
      · rename_i hform
        split at hread
        · rename_i nanos hunit
          obtain ⟨unit, rfl, rfl⟩ := TimeUnit.unit?_eq_some_iff.mp hunit
          simp only [Bool.or_eq_true, List.isEmpty_iff, decide_eq_true_eq, Bool.not_eq_true',
            not_or, Bool.not_eq_false, List.all_eq_true] at hform
          obtain ⟨⟨hne, hle⟩, hdigits⟩ := hform
          exact ⟨digits, unit, ⟨hs, hne, Nat.le_of_not_lt hle, hdigits⟩,
            (Reading.nanos.inj hread).symm⟩
        · cases hread

theorem read_eq_nanos_iff (s : String) (n : Nat) : read s = .nanos n ↔ Announces s n :=
  ⟨announces_of_read, fun ⟨_, _, hspells, hn⟩ => hn ▸ read_of_spells hspells⟩

theorem read_eq_split_iff (s : String) :
    read s = .split ↔ 2 ≤ s.utf8ByteSize ∧ ¬ String.Pos.Raw.IsValid s ⟨s.utf8ByteSize - 1⟩ := by
  rcases List.eq_nil_or_concat s.toList with hs | ⟨digits, last, hs⟩
  · obtain rfl := String.toList_eq_nil_iff.mp hs
    simp [read_of_nil hs]
  · rw [List.concat_eq_append] at hs
    have hsize := utf8ByteSize_of_concat hs
    have hpos := last.utf8Size_pos
    rw [isValid_cut_iff hs, read_of_concat hs]
    by_cases hone : last.utf8Size = 1
    · constructor
      · intro hsplit
        rw [if_neg (not_not.mpr hone)] at hsplit
        split at hsplit
        · cases hsplit
        · split at hsplit <;> cases hsplit
      · rintro ⟨-, hmany⟩
        exact absurd hone hmany
    · have hlong : 2 ≤ s.utf8ByteSize := by omega
      simp [hone, hlong]

/-- A text is read as the time limit it announces; where it announces none it is refused, unless the
byte that is cut off as the unit is a part of a character: then the cut goes wrong. -/
theorem read_cases (s : String) :
    (∀ n, read s = .nanos n ↔ Announces s n) ∧
      (read s = .split ↔ 2 ≤ s.utf8ByteSize ∧ ¬ String.Pos.Raw.IsValid s ⟨s.utf8ByteSize - 1⟩) ∧
      (read s = .malformed ↔ (¬ ∃ n, Announces s n) ∧
        (2 ≤ s.utf8ByteSize → String.Pos.Raw.IsValid s ⟨s.utf8ByteSize - 1⟩)) := by
  refine ⟨read_eq_nanos_iff s, read_eq_split_iff s, ?_⟩
  have hsplit := read_eq_split_iff s
  simp only [← read_eq_nanos_iff]
  rw [← not_and_not_right, ← hsplit]
  cases read s <;> simp

end GrpcContract.Timeout

namespace GrpcContract.Sample

open Timeout

/-- The sign for a millionth is a character of two bytes, and the text cannot be cut between them. -/
theorem read_micro_sign :
    ¬ ∀ s, (∀ n, read s = .nanos n ↔ Announces s n) ∧ (read s = .malformed ↔ ¬ ∃ n, Announces s n) ∧
      (2 ≤ s.utf8ByteSize → String.Pos.Raw.IsValid s ⟨s.utf8ByteSize - 1⟩) := by
  intro hall
  obtain ⟨-, -, hcut⟩ := hall "1µ"
  have hread : read "1µ" = .split := by decide +kernel
  obtain ⟨hlong, hinside⟩ := (read_eq_split_iff "1µ").mp hread
  exact hinside (hcut hlong)

end GrpcContract.Sample

namespace GrpcContract.Timeout

/-! ### Machine words -/

/-- A length of time as whole seconds in 64 bits and the nanoseconds beyond them. -/
structure Span where
  seconds : UInt64
  nanos : UInt32

def Span.toNanos (d : Span) : Nat :=
  d.seconds.toNat * 1000000000 + d.nanos.toNat

/-- A number of units, multiplied and divided in machine words. -/
def TimeUnit.span : TimeUnit → UInt64 → Span
  | hour, amount => ⟨amount * 60 * 60, 0⟩
  | minute, amount => ⟨amount * 60, 0⟩
  | second, amount => ⟨amount, 0⟩
  | millisecond, amount => ⟨amount / 1000, (amount % 1000).toUInt32 * 1000000⟩
  | microsecond, amount => ⟨amount / 1000000, (amount % 1000000).toUInt32 * 1000⟩
  | nanosecond, amount => ⟨amount / 1000000000, (amount % 1000000000).toUInt32⟩

/-- Eight digits are too few for a product to leave 64 bits. -/
theorem TimeUnit.toNanos_span (unit : TimeUnit) {amount : Nat} (hamount : amount < 10 ^ 8) :
    (unit.span (UInt64.ofNat amount)).toNanos = amount * unit.nanos := by
  have hword : (UInt64.ofNat amount).toNat = amount := by
    rw [UInt64.toNat_ofNat']
    omega
  cases unit with
  | second => simp [span, Span.toNanos, nanos, hword]
  | hour | minute =>
      -- The products stay below 2 ^ 64.
      simp only [span, Span.toNanos, nanos, UInt64.toNat_mul, UInt64.reduceToNat,
        UInt32.reduceToNat, hword]
      omega
  | millisecond | microsecond | nanosecond =>
      -- Whole seconds and the rest make up the amount again, and the rest fits into 32 bits.
      simp only [span, Span.toNanos, nanos, UInt64.toNat_div, UInt64.toNat_mod,
        UInt64.toNat_toUInt32, UInt32.toNat_mul, UInt64.reduceToNat, UInt32.reduceToNat, hword]
      omega

/-! ### Time limits in headers -/

/-- Whether the first value of the header for time limits announces a number of nanoseconds. -/
def Announced (h : Headers) (n : Nat) : Prop :=
  ∃ s, h.get? HeaderName.grpcTimeout = some (headerValue s) ∧ Announces s n

theorem read_ne_split_of_ascii {s : String} (hascii : ∀ c ∈ s.toList, c.utf8Size = 1) :
    read s ≠ .split := by
  rcases List.eq_nil_or_concat s.toList with hs | ⟨digits, last, hs⟩
  · rw [read_of_nil hs]
    exact Reading.noConfusion
  · rw [List.concat_eq_append] at hs
    have hone : last.utf8Size = 1 := hascii last (by simp [hs])
    intro hsplit
    exact ((read_eq_split_iff s).mp hsplit).2 ((isValid_cut_iff hs).mpr hone)

theorem Spells.isShown {s : String} {digits : List Char} {unit : TimeUnit}
    (hspells : Spells s digits unit) {c : Char} (hc : c ∈ s.toList) :
    Text.Percent.isShown c = true := by
  rw [hspells.toList_eq, List.mem_append, List.mem_singleton] at hc
  rcases hc with hdigit | rfl
  · have hrange := hspells.isDigit c hdigit
    simp only [Char.isDigit, Bool.and_eq_true, decide_eq_true_eq] at hrange
    have hlow : 0x30 ≤ c.toNat := UInt32.le_iff_toNat_le.mp hrange.1
    have hhigh : c.toNat ≤ 0x39 := UInt32.le_iff_toNat_le.mp hrange.2
    simp only [Text.Percent.isShown, Bool.and_eq_true, decide_eq_true_eq]
    omega
  · cases unit <;> rfl

theorem Spells.amount_lt {s : String} {digits : List Char} {unit : TimeUnit}
    (hspells : Spells s digits unit) : Nat.ofDigitChars 10 digits 0 < 10 ^ 8 :=
  calc
    Nat.ofDigitChars 10 digits 0 < 10 ^ digits.length := Text.natOfDigits_lt hspells.isDigit
    _ ≤ 10 ^ 8 := Nat.pow_le_pow_right (by decide) hspells.length_le

theorem ofHeaders?_eq_some_iff (h : Headers) (n : Nat) :
    ofHeaders? h = some n ↔ Announced h n := by
  have hread (s : String) : (read s).nanos? = some n ↔ Announces s n := by
    rw [← read_eq_nanos_iff]
    cases read s <;> simp [Reading.nanos?]
  simp only [ofHeaders?, Headers.text?, Option.bind_eq_some_iff, hread]
  constructor
  · rintro ⟨s, ⟨value, hvalue, htext⟩, hannounces⟩
    obtain ⟨rfl, -⟩ := Text.Percent.headerValue_of_headerText? htext
    exact ⟨s, hvalue, hannounces⟩
  · rintro ⟨s, hvalue, hannounces⟩
    obtain ⟨digits, unit, hspells, hn⟩ := hannounces
    have hshown : ∀ c ∈ s.toList, Text.Percent.isShown c = true := fun c => hspells.isShown
    exact ⟨s, ⟨_, hvalue, Text.Percent.headerText?_headerValue hshown⟩, digits, unit, hspells, hn⟩

/-- A header is read without a failure, and as a time limit exactly if its first value announces
that limit, which is what its number times its unit comes to in 64 bits. Where no limit is
announced, that of the server holds if it has one, and of two limits the shorter. -/
theorem shorter?_of_headers (h : Headers) (server? : Option Nat) :
    (∀ s, h.text? HeaderName.grpcTimeout = some s → read s ≠ .split) ∧
      (∀ n, ofHeaders? h = some n ↔ Announced h n) ∧
      (∀ s digits unit, Spells s digits unit →
        read s = .nanos (unit.span (UInt64.ofNat (Nat.ofDigitChars 10 digits 0))).toNanos) ∧
      ((¬ ∃ n, Announced h n) → shorter? server? (ofHeaders? h) = server?) ∧
      (∀ limit, server? = some limit → ∃ n ≤ limit, shorter? server? (ofHeaders? h) = some n) ∧
      (∀ n, Announced h n → shorter? server? (ofHeaders? h) =
        match server? with
        | some limit => some (min limit n)
        | none => some n) := by
  have hannounced := ofHeaders?_eq_some_iff h
  refine ⟨?_, hannounced, ?_, ?_, ?_, ?_⟩
  · intro s htext
    obtain ⟨value, -, hvalue⟩ := Option.bind_eq_some_iff.mp htext
    exact read_ne_split_of_ascii (Text.Percent.headerValue_of_headerText? hvalue).2
  · intro s digits unit hspells
    rw [unit.toNanos_span hspells.amount_lt, read_of_spells hspells]
  · intro hnone
    have hheader : ofHeaders? h = none := by
      refine Option.eq_none_iff_forall_ne_some.mpr fun n hn => hnone ⟨n, (hannounced n).mp hn⟩
    rw [hheader]
    cases server? <;> rfl
  · rintro limit rfl
    cases ofHeaders? h with
    | none => exact ⟨limit, le_rfl, rfl⟩
    | some n => exact ⟨min limit n, min_le_left limit n, rfl⟩
  · intro n hn
    rw [(hannounced n).mpr hn]
    cases server? <;> rfl

end GrpcContract.Timeout

namespace GrpcContract.Sample

open Timeout

def hastyHeaders : Headers :=
  Headers.empty.insertText HeaderName.grpcTimeout "00000250m"

/-- A client that allows a quarter of a second gets no more of a server that allows five. -/
theorem shorter?_hastyHeaders :
    Announced hastyHeaders 250000000 ∧
      shorter? (some 5000000000) (ofHeaders? hastyHeaders) = some 250000000 := by
  obtain ⟨-, -, -, -, -, hboth⟩ := shorter?_of_headers hastyHeaders (some 5000000000)
  have hannounced : Announced hastyHeaders 250000000 :=
    ⟨"00000250m", rfl, "00000250".toList, .millisecond,
      ⟨by decide, by decide, by decide, List.all_eq_true.mp (by decide)⟩, by decide⟩
  exact ⟨hannounced, hboth 250000000 hannounced⟩

end GrpcContract.Sample
