import GrpcContract.Text.Numeral
import Mathlib.Data.Nat.Digits.Defs

/-!
# Decimal numerals

The digits of a number read back as the number, with its sign if it has one, and do not start with
a zero unless the number is zero.
-/

namespace GrpcContract.Text

@[simp]
theorem natOfDigits_toDigits (n : Nat) : natOfDigits (Nat.toDigits 10 n) = n :=
  Nat.ofDigitChars_ten_toDigits

theorem foldl_digits_eq (n : Nat) (cs : List Char) :
    cs.foldl (fun n c => 10 * n + (c.toNat - '0'.toNat)) n =
      n * 10 ^ cs.length + natOfDigits cs := by
  induction cs generalizing n with
  | nil => simp [natOfDigits]
  | cons c cs ih =>
      rw [natOfDigits, List.foldl_cons, List.foldl_cons, ih, ih (10 * 0 + _), List.length_cons,
        Nat.pow_succ]
      grind

theorem natOfDigits_append (cs ds : List Char) :
    natOfDigits (cs ++ ds) = natOfDigits cs * 10 ^ ds.length + natOfDigits ds := by
  rw [natOfDigits, List.foldl_append, foldl_digits_eq]
  rfl

@[simp]
theorem natOfDigits_replicate_zero (n : Nat) : natOfDigits (List.replicate n '0') = 0 := by
  induction n with
  | zero => rfl
  | succ n ih => simpa [List.replicate_succ, natOfDigits] using ih

theorem natOfDigits_lt {cs : List Char} (hcs : ∀ c ∈ cs, c.isDigit = true) :
    natOfDigits cs < 10 ^ cs.length := by
  induction cs with
  | nil => simp [natOfDigits]
  | cons c cs ih =>
      have hc : c.toNat - '0'.toNat ≤ 9 := by
        have hdigit := hcs c (by simp)
        simp only [Char.isDigit, Bool.and_eq_true, decide_eq_true_eq] at hdigit
        have hle : c.toNat ≤ '9'.toNat := hdigit.2
        have hnine : '9'.toNat - '0'.toNat = 9 := by decide
        omega
      have htail := ih fun c hc => hcs c (by simp [hc])
      rw [natOfDigits, List.foldl_cons, foldl_digits_eq, List.length_cons, Nat.pow_succ,
        Nat.mul_zero, Nat.zero_add]
      have hhead := Nat.mul_le_mul_right (10 ^ cs.length) hc
      omega

theorem isDigit_of_mem_toDigits {n : Nat} {c : Char} (hmem : c ∈ Nat.toDigits 10 n) :
    c.isDigit = true :=
  Nat.isDigit_of_mem_toDigits (by decide) (by decide) hmem

@[simp]
theorem readDigits?_toDigits (n : Nat) : readDigits? (Nat.toDigits 10 n) = some n := by
  have hall : (Nat.toDigits 10 n).all Char.isDigit = true :=
    List.all_eq_true.mpr fun _ => isDigit_of_mem_toDigits
  simp [readDigits?, hall]

theorem head?_toDigits_ne_zero {n : Nat} (hpos : n ≠ 0) :
    (Nat.toDigits 10 n).head? ≠ some '0' := by
  induction n using Nat.strongRecOn with
  | ind n ih =>
      rw [Nat.toDigits_eq_if (by decide)]
      split
      · rename_i hlt
        have hall : ∀ m < 10, m ≠ 0 → Nat.digitChar m ≠ '0' := by decide
        simpa using hall n hlt hpos
      · rename_i hge
        have hrest := ih (n / 10) (by omega) (by omega)
        cases hdigits : Nat.toDigits 10 (n / 10) with
        | nil => exact absurd hdigits Nat.toDigits_ne_nil
        | cons d ds => simpa [hdigits] using hrest

theorem toDigits_wellFormed (n : Nat) :
    (Nat.toDigits 10 n).length = 1 ∨ (Nat.toDigits 10 n).head? ≠ some '0' := by
  by_cases hzero : n = 0
  · exact Or.inl (by simp [hzero])
  · exact Or.inr (head?_toDigits_ne_zero hzero)

/-- The first digit of a numeral, apart from the others. -/
theorem exists_toDigits_eq_cons (n : Nat) :
    ∃ d ds, Nat.toDigits 10 n = d :: ds ∧ d.isDigit = true := by
  cases hdigits : Nat.toDigits 10 n with
  | nil => exact absurd hdigits Nat.toDigits_ne_nil
  | cons d ds => exact ⟨d, ds, rfl, isDigit_of_mem_toDigits (n := n) (by simp [hdigits])⟩

/-- The text of an integer: its digits, after a minus sign if it is negative. -/
theorem toList_toString_int (n : Int) :
    (toString n).toList = (if n < 0 then ['-'] else []) ++ Nat.toDigits 10 n.natAbs := by
  cases n with
  | ofNat m => simp [Int.toString_eq_repr, Int.repr]
  | negSucc m =>
      simp [Int.toString_eq_repr, Int.repr, Int.negSucc_lt_zero, String.toList_append]

@[simp]
theorem readNat?_toString (n : Nat) : readNat? (toString n).toList = some n := by
  have hread : readNat? (Nat.toDigits 10 n) = readDigits? (Nat.toDigits 10 n) := by
    obtain ⟨d, ds, hdigits, hd⟩ := exists_toDigits_eq_cons n
    have hne : d ≠ '+' := by
      rintro rfl
      exact absurd hd (by decide)
    rw [hdigits]
    unfold readNat?
    split
    · rename_i heq
      exact absurd (List.cons.inj heq).1 hne
    · rfl
  simp [hread]

@[simp]
theorem readInt?_toString (n : Int) : readInt? (toString n).toList = some n := by
  rw [toList_toString_int]
  by_cases hneg : n < 0
  · have hread : readInt? ('-' :: Nat.toDigits 10 n.natAbs) = some (-(n.natAbs : Int)) := by
      simp [readInt?]
    simp only [hneg, ↓reduceIte, List.cons_append, List.nil_append, hread, Option.some.injEq]
    omega
  · have hread : readNat? (Nat.toDigits 10 n.natAbs) = some n.natAbs := by
      simpa using readNat?_toString n.natAbs
    obtain ⟨d, ds, hdigits, hd⟩ := exists_toDigits_eq_cons n.natAbs
    have hne : d ≠ '-' := by
      rintro rfl
      exact absurd hd (by decide)
    simp only [hneg, ↓reduceIte, List.nil_append]
    unfold readInt?
    split
    · rename_i heq
      rw [hdigits] at heq
      exact absurd (List.cons.inj heq).1 hne
    · rw [hread]
      simp only [Option.map_some]
      congr 1
      exact Int.natAbs_of_nonneg (by omega)

end GrpcContract.Text
