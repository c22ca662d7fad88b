import GrpcContract.Json.Parser
import GrpcContract.Number.Format
import GrpcContract.Proofs.Numerals
import Mathlib.Data.Option.Basic

/-!
# Numbers in JSON text

A number is read up to the first character that cannot be a part of it. So a text that is nothing
but a number reads the same in front of whatever ends a number.
-/

namespace GrpcContract.Json

open GrpcContract.Number

/-- Whether a character can come after the start of a number. -/
def continuesNumber (c : Char) : Bool :=
  c.isDigit || c == '.' || c == 'e' || c == 'E'

/-- Whether a text ends a number in front of it. -/
def EndsNumber (rest : List Char) : Prop :=
  ∀ c ∈ rest.head?, continuesNumber c = false

@[simp]
theorem endsNumber_nil : EndsNumber [] := by
  simp [EndsNumber]

theorem endsNumber_cons {c : Char} {rest : List Char} :
    EndsNumber (c :: rest) ↔ continuesNumber c = false := by
  simp [EndsNumber]

theorem isDigit_eq_false_of_not_continuesNumber {c : Char} (hend : continuesNumber c = false) :
    c.isDigit = false := by
  simp only [continuesNumber, Bool.or_eq_false_iff] at hend
  exact hend.1.1.1

theorem takeWhile_isDigit_append (cs : List Char) {rest : List Char} (hend : EndsNumber rest) :
    (cs ++ rest).takeWhile Char.isDigit = cs.takeWhile Char.isDigit := by
  have hrest : rest.takeWhile Char.isDigit = [] := by
    cases rest with
    | nil => rfl
    | cons c rest =>
        simp [isDigit_eq_false_of_not_continuesNumber (endsNumber_cons.mp hend)]
  rw [List.takeWhile_append]
  split
  · rename_i hall
    rw [hrest, List.append_nil]
    exact ((List.takeWhile_prefix Char.isDigit).eq_of_length hall).symm
  · rfl

theorem dropWhile_isDigit_append (cs : List Char) {rest : List Char} (hend : EndsNumber rest) :
    (cs ++ rest).dropWhile Char.isDigit = cs.dropWhile Char.isDigit ++ rest := by
  have htake := takeWhile_isDigit_append cs hend
  have hwhole := List.takeWhile_append_dropWhile (p := Char.isDigit) (l := cs ++ rest)
  have hpart := List.takeWhile_append_dropWhile (p := Char.isDigit) (l := cs)
  rw [htake] at hwhole
  apply @List.append_cancel_left _ (cs.takeWhile Char.isDigit)
  rw [hwhole, ← List.append_assoc, hpart]

theorem readDigits_append {cs ds left rest : List Char} (hread : readDigits cs = some (ds, left))
    (hend : EndsNumber rest) : readDigits (cs ++ rest) = some (ds, left ++ rest) := by
  unfold readDigits at hread ⊢
  rw [takeWhile_isDigit_append cs hend, dropWhile_isDigit_append cs hend]
  split at hread
  · exact absurd hread (by simp)
  · simp_all

theorem readDigits_of_digits (ds rest : List Char) (hne : ds ≠ [])
    (hds : ∀ c ∈ ds, c.isDigit = true) (hrest : ∀ c ∈ rest.head?, c.isDigit = false) :
    readDigits (ds ++ rest) = some (ds, rest) := by
  have htake : rest.takeWhile Char.isDigit = [] := by
    cases rest with
    | nil => rfl
    | cons c rest => simp [hrest c (by simp)]
  have hdrop : rest.dropWhile Char.isDigit = rest := by
    cases rest with
    | nil => rfl
    | cons c rest => simp [hrest c (by simp)]
  unfold readDigits
  rw [List.takeWhile_append_of_pos hds, List.dropWhile_append_of_pos hds, htake, hdrop,
    List.append_nil]
  cases ds with
  | nil => exact absurd rfl hne
  | cons c ds => rfl

theorem readFraction_append {cs ds left rest : List Char}
    (hread : readFraction cs = some (ds, left)) (hend : EndsNumber rest) :
    readFraction (cs ++ rest) = some (ds, left ++ rest) := by
  unfold readFraction at hread
  split at hread
  · exact readDigits_append hread hend
  · rename_i hpoint
    simp only [Option.some.injEq, Prod.mk.injEq] at hread
    obtain ⟨rfl, rfl⟩ := hread
    unfold readFraction
    split
    · rename_i more heq
      cases cs with
      | nil =>
          rw [List.nil_append] at heq
          subst heq
          exact absurd (endsNumber_cons.mp hend) (by decide)
      | cons c cs =>
          rw [List.cons_append, List.cons.injEq] at heq
          exact absurd (heq.1 ▸ rfl) (hpoint cs)
    · rfl

/-- The sign of an exponent, and what comes after it. -/
def splitSign : List Char → Bool × List Char
  | '-' :: rest => (true, rest)
  | '+' :: rest => (false, rest)
  | rest => (false, rest)

theorem splitSign_append {cs : List Char} (rest : List Char) (hne : cs ≠ []) :
    splitSign (cs ++ rest) = ((splitSign cs).1, (splitSign cs).2 ++ rest) := by
  cases cs with
  | nil => exact absurd rfl hne
  | cons c cs =>
      by_cases hminus : c = '-'
      · simp [hminus, splitSign]
      by_cases hplus : c = '+'
      · simp [hplus, splitSign]
      simp [splitSign, hminus, hplus]

/-- The exponent that digits after a sign make up. -/
def signedExponent (negative : Bool) (ds : List Char) : Int :=
  if negative then -(Text.natOfDigits ds : Int) else Text.natOfDigits ds

theorem readExponent_cons (c : Char) (cs : List Char) :
    readExponent (c :: cs) =
      if c == 'e' || c == 'E' then
        (readDigits (splitSign cs).2).map fun p =>
          (some (signedExponent (splitSign cs).1 p.1), p.2)
      else some (none, c :: cs) := by
  by_cases hletter : (c == 'e' || c == 'E') = true
  · rw [if_pos hletter]
    simp only [readExponent, if_pos hletter]
    split
    · exact Option.map_eq_bind.symm
    · exact Option.map_eq_bind.symm
    · rename_i hminus hplus
      have hsign : splitSign cs = (false, cs) := by
        unfold splitSign
        split <;> simp_all
      rw [hsign]
      exact Option.map_eq_bind.symm
  · rw [if_neg hletter]
    simp only [readExponent, if_neg hletter]

theorem readExponent_append {cs left rest : List Char} {e : Option Int}
    (hread : readExponent cs = some (e, left)) (hend : EndsNumber rest) :
    readExponent (cs ++ rest) = some (e, left ++ rest) := by
  cases cs with
  | nil =>
      simp only [readExponent, Option.some.injEq, Prod.mk.injEq] at hread
      obtain ⟨rfl, rfl⟩ := hread
      cases rest with
      | nil => rfl
      | cons c rest =>
          have hc := endsNumber_cons.mp hend
          simp only [continuesNumber, Bool.or_eq_false_iff] at hc
          simp [readExponent_cons, hc.1.2, hc.2]
  | cons c cs =>
      rw [readExponent_cons] at hread
      rw [List.cons_append, readExponent_cons]
      split at hread
      · rename_i hletter
        obtain ⟨⟨ds, more⟩, hdigits, heq⟩ := Option.map_eq_some_iff.mp hread
        simp only [Prod.mk.injEq] at heq
        obtain ⟨rfl, rfl⟩ := heq
        have hne : cs ≠ [] := by
          rintro rfl
          simp [splitSign, readDigits] at hdigits
        rw [if_pos hletter, splitSign_append rest hne, readDigits_append hdigits hend]
        rfl
      · rename_i hletter
        simp only [Option.some.injEq, Prod.mk.injEq] at hread
        obtain ⟨rfl, rfl⟩ := hread
        rw [if_neg hletter, List.cons_append]

theorem readLiteral_eq_some_iff {negative : Bool} {cs left : List Char} {l : Literal} :
    readLiteral negative cs = some (l, left) ↔
      ∃ afterWhole afterFraction,
        readDigits cs = some (l.whole, afterWhole) ∧
        (l.whole.length = 1 ∨ l.whole.head? ≠ some '0') ∧
        readFraction afterWhole = some (l.fraction, afterFraction) ∧
        readExponent afterFraction = some (l.exponent, left) ∧
        l.negative = negative := by
  constructor
  · intro hread
    simp only [readLiteral, Option.bind_eq_bind, Option.bind_eq_some_iff, guard,
      Option.pure_def] at hread
    obtain ⟨⟨whole, afterWhole⟩, hwhole, _, hguard, ⟨fraction, afterFraction⟩, hfraction,
      ⟨exponent, after⟩, hexponent, heq⟩ := hread
    simp only [Option.some.injEq, Prod.mk.injEq] at heq
    obtain ⟨rfl, rfl⟩ := heq
    refine ⟨afterWhole, afterFraction, hwhole, ?_, hfraction, hexponent, rfl⟩
    by_cases hnumeral : whole.length = 1 ∨ whole.head? ≠ some '0'
    · exact hnumeral
    · rw [if_neg hnumeral] at hguard
      exact absurd hguard (by simp [failure])
  · rintro ⟨afterWhole, afterFraction, hwhole, hguard, hfraction, hexponent, rfl⟩
    simp only [readLiteral, hwhole, hfraction, hexponent, guard, if_pos hguard,
      Option.bind_eq_bind, Option.bind_some, Option.pure_def]

theorem readLiteral_append {negative : Bool} {cs left rest : List Char} {l : Literal}
    (hread : readLiteral negative cs = some (l, left)) (hend : EndsNumber rest) :
    readLiteral negative (cs ++ rest) = some (l, left ++ rest) := by
  obtain ⟨afterWhole, afterFraction, hwhole, hguard, hfraction, hexponent, hsign⟩ :=
    readLiteral_eq_some_iff.mp hread
  exact readLiteral_eq_some_iff.mpr ⟨afterWhole ++ rest, afterFraction ++ rest,
    readDigits_append hwhole hend, hguard, readFraction_append hfraction hend,
    readExponent_append hexponent hend, hsign⟩

end GrpcContract.Json
