import GrpcContract.Proofs.JsonNumbers
import GrpcContract.Proofs.JsonStrings
import Mathlib.Data.List.Forall2
import Mathlib.Data.List.TakeWhile

/-!
# JSON text

A text stands for a value if it is read as that value whatever ends a number comes after it.
Arrays and objects of such texts are such texts again, so a printer is checked part by part.
-/

namespace GrpcContract.Json

open GrpcContract.Number

/-- Whether a text is read as a value in front of anything that ends a number. Its first character
is no blank, and does not end an array. -/
structure StandsFor (text : List Char) (value : Json) : Prop where
  start : ∃ c cs, text = c :: cs ∧ isSpace c = false ∧ c ≠ ']'
  read : ∀ fuel rest, 2 * text.length < fuel → EndsNumber rest →
    readValue fuel (text ++ rest) = some (value, rest)

theorem skipSpace_cons {c : Char} (cs : List Char) (hspace : isSpace c = false) :
    skipSpace (c :: cs) = c :: cs := by
  simp [skipSpace, hspace]

/-! ### Atoms -/

theorem readLiteral_cons_of_not_isDigit {c : Char} (negative : Bool) (cs : List Char)
    (hdigit : c.isDigit = false) : readLiteral negative (c :: cs) = none := by
  simp [readLiteral, readDigits, hdigit]

/-- What is neither a digit nor one of the characters that other atoms start with starts none. -/
theorem readAtom_cons_eq_none {c : Char} (cs : List Char) (hdigit : c.isDigit = false)
    (hstart : c ∉ ['n', 't', 'f', '"', '-']) : readAtom (c :: cs) = none := by
  simp only [List.mem_cons, List.not_mem_nil, or_false, not_or] at hstart
  unfold readAtom
  split <;> simp_all [readLiteral_cons_of_not_isDigit]

theorem start_of_readAtom {text : List Char} {p : Json × List Char}
    (hread : readAtom text = some p) :
    ∃ c cs, text = c :: cs ∧ isSpace c = false ∧ c ∉ ['[', ']', '\x7b'] := by
  cases text with
  | nil => simp [readAtom, readLiteral, readDigits] at hread
  | cons c cs =>
      refine ⟨c, cs, rfl, ?_, ?_⟩
      · by_cases hspace : isSpace c = true
        · have hcases : c = ' ' ∨ c = '\n' ∨ c = '\t' ∨ c = '\r' := by
            simpa [isSpace, or_assoc] using hspace
          rcases hcases with rfl | rfl | rfl | rfl <;>
            rw [readAtom_cons_eq_none cs (by decide) (by decide)] at hread <;>
            exact absurd hread (by simp)
        · simpa using hspace
      · intro hmem
        simp only [List.mem_cons, List.not_mem_nil, or_false] at hmem
        rcases hmem with rfl | rfl | rfl <;>
          rw [readAtom_cons_eq_none cs (by decide) (by decide)] at hread <;>
          exact absurd hread (by simp)

theorem readValue_of_readAtom {text : List Char} {p : Json × List Char} (fuel : Nat)
    (hread : readAtom text = some p) : readValue (fuel + 1) text = some p := by
  obtain ⟨c, cs, rfl, hspace, hstart⟩ := start_of_readAtom hread
  simp only [List.mem_cons, List.not_mem_nil, or_false, not_or] at hstart
  rw [readValue, skipSpace_cons cs hspace]
  split
  · rename_i heq
    exact absurd (List.cons.inj heq).1 hstart.1
  · rename_i heq
    exact absurd (List.cons.inj heq).1 hstart.2.2
  · exact hread

theorem StandsFor.ofReadAtom {text : List Char} {value : Json}
    (hread : ∀ rest, EndsNumber rest → readAtom (text ++ rest) = some (value, rest)) :
    StandsFor text value := by
  have hwhole : readAtom text = some (value, []) := by
    simpa using hread [] endsNumber_nil
  obtain ⟨c, cs, heq, hspace, hstart⟩ := start_of_readAtom hwhole
  refine ⟨⟨c, cs, heq, hspace, fun hclose => hstart (by simp [hclose])⟩, ?_⟩
  intro fuel rest hfuel hend
  obtain ⟨fuel, rfl⟩ : ∃ n, fuel = n + 1 := ⟨fuel - 1, by omega⟩
  exact readValue_of_readAtom fuel (hread rest hend)

theorem standsFor_bool (b : Bool) :
    StandsFor (if b then "true" else "false").toList (bool b) := by
  cases b <;> exact .ofReadAtom fun _ _ => rfl

theorem standsFor_quote (s : String) : StandsFor (quote s) (string s) := by
  refine .ofReadAtom fun rest _ => ?_
  simp [quote, readAtom, readString_quoted]

theorem readAtom_of_isDigit {c : Char} (cs : List Char) (hdigit : c.isDigit = true) :
    readAtom (c :: cs) =
      (readLiteral false (c :: cs)).map fun p => (ofLiteral p.1, p.2) := by
  unfold readAtom
  split
  case h_6 => rfl
  all_goals
    rename_i heq
    rw [(List.cons.inj heq).1] at hdigit
    exact absurd hdigit (by decide)

/-! ### Integers -/

theorem readLiteral_toDigits (negative : Bool) (n : Nat) :
    readLiteral negative (Nat.toDigits 10 n) =
      some (⟨negative, Nat.toDigits 10 n, [], none⟩, []) := by
  have hdigits : readDigits (Nat.toDigits 10 n) = some (Nat.toDigits 10 n, []) := by
    simpa using readDigits_of_digits _ [] Nat.toDigits_ne_nil
      (fun _ => Text.isDigit_of_mem_toDigits) (by simp)
  exact readLiteral_eq_some_iff.mpr
    ⟨[], [], hdigits, Text.toDigits_wellFormed n, rfl, rfl, rfl⟩

theorem ofLiteral_toDigits {n : Int} (hlow : -0x8000000000000000 ≤ n)
    (hhigh : n < 0x10000000000000000) :
    ofLiteral ⟨n < 0, Nat.toDigits 10 n.natAbs, [], none⟩ = number (.int n) := by
  by_cases hneg : n < 0
  · have habs : -(n.natAbs : Int) = n := by omega
    have hbound : n.natAbs ≤ 0x8000000000000000 := by omega
    have hpos : 0 < n.natAbs := by omega
    generalize n.natAbs = m at habs hbound hpos
    simp [ofLiteral, Number.ofLiteral?, Literal.isInteger, hneg, hbound, hpos, habs]
  · have habs : (n.natAbs : Int) = n := by omega
    have hbound : n.natAbs < 0x10000000000000000 := by omega
    generalize n.natAbs = m at habs hbound
    simp [ofLiteral, Number.ofLiteral?, Literal.isInteger, hneg, hbound, habs]

/-- An integer of at most 64 bits, signed or unsigned, is read as an integer. -/
theorem standsFor_int {n : Int} (hlow : -0x8000000000000000 ≤ n)
    (hhigh : n < 0x10000000000000000) :
    StandsFor (toString n).toList (number (.int n)) := by
  refine .ofReadAtom fun rest hend => ?_
  have hread := readLiteral_append (readLiteral_toDigits (decide (n < 0)) n.natAbs) hend
  have hvalue := ofLiteral_toDigits hlow hhigh
  rw [Text.toList_toString_int]
  by_cases hneg : n < 0
  · simp only [hneg, decide_true, List.nil_append] at hread hvalue
    simp [hneg, readAtom, hread, hvalue]
  · obtain ⟨d, ds, hdigits, hd⟩ := Text.exists_toDigits_eq_cons n.natAbs
    simp only [hneg, decide_false, List.nil_append] at hread hvalue
    rw [hdigits] at hread hvalue
    simp only [hneg, ↓reduceIte, List.nil_append, hdigits, List.cons_append]
    rw [readAtom_of_isDigit _ hd, ← List.cons_append, hread]
    simp [hvalue]

/-! ### Arrays and objects -/

@[simp]
theorem commaSeparated_nil : commaSeparated [] = [] := rfl

@[simp]
theorem commaSeparated_singleton (text : List Char) : commaSeparated [text] = text := by
  simp [commaSeparated]

@[simp]
theorem commaSeparated_cons_cons (text text' : List Char) (texts : List (List Char)) :
    commaSeparated (text :: text' :: texts) = text ++ ',' :: commaSeparated (text' :: texts) := by
  simp [commaSeparated, List.intersperse]

theorem endsNumber_comma (rest : List Char) : EndsNumber (',' :: rest) :=
  endsNumber_cons.mpr (by decide)

theorem endsNumber_bracket (rest : List Char) : EndsNumber (']' :: rest) :=
  endsNumber_cons.mpr (by decide)

theorem endsNumber_brace (rest : List Char) : EndsNumber ('\x7d' :: rest) :=
  endsNumber_cons.mpr (by decide)

theorem StandsFor.length_pos {text : List Char} {value : Json} (htext : StandsFor text value) :
    0 < text.length := by
  obtain ⟨c, cs, rfl, -⟩ := htext.start
  simp

/-- One or more texts with commas between them are read up to the closing bracket. -/
theorem readItems_commaSeparated {texts : List (List Char)} {values : List Json}
    (htexts : List.Forall₂ StandsFor texts values) (hne : texts ≠ []) (rest : List Char)
    (fuel : Nat) (hfuel : 2 * (commaSeparated texts).length + 1 < fuel) :
    readItems fuel (commaSeparated texts ++ ']' :: rest) = some (values, rest) := by
  induction htexts generalizing fuel with
  | nil => exact absurd rfl hne
  | @cons text value texts values htext hmore ih =>
      obtain ⟨fuel, rfl⟩ : ∃ n, fuel = n + 1 := ⟨fuel - 1, by omega⟩
      cases hmore with
      | nil =>
          rw [commaSeparated_singleton] at hfuel ⊢
          have hread := htext.read fuel (']' :: rest) (by omega) (endsNumber_bracket rest)
          simp [readItems, hread, skipSpace_cons rest (show isSpace ']' = false by decide)]
      | @cons text' value' texts values htext' hmore =>
          have hpos := htext.length_pos
          rw [commaSeparated_cons_cons, List.length_append, List.length_cons] at hfuel
          rw [commaSeparated_cons_cons, List.append_assoc, List.cons_append]
          have hread := htext.read fuel
            (',' :: (commaSeparated (text' :: texts) ++ ']' :: rest)) (by omega)
            (endsNumber_comma _)
          have hitems := ih (by simp) fuel (by omega)
          simp [readItems, hread, skipSpace_cons _ (show isSpace ',' = false by decide), hitems]

/-- The text of a member. -/
def memberText (key : String) (text : List Char) : List Char :=
  quote key ++ ':' :: text

/-- Whether a text is that of a member. -/
def MemberStandsFor (text : List Char) (member : String × Json) : Prop :=
  ∃ value, text = memberText member.1 value ∧ StandsFor value member.2

theorem readMembers_commaSeparated {texts : List (List Char)} {members : List (String × Json)}
    (htexts : List.Forall₂ MemberStandsFor texts members) (hne : texts ≠ []) (rest : List Char)
    (fuel : Nat) (hfuel : 2 * (commaSeparated texts).length + 1 < fuel) :
    readMembers fuel (commaSeparated texts ++ '\x7d' :: rest) =
      some (members.map fun m => (some m.1, m.2), rest) := by
  induction htexts generalizing fuel with
  | nil => exact absurd rfl hne
  | @cons text member texts members htext hmore ih =>
      obtain ⟨fuel, rfl⟩ : ∃ n, fuel = n + 1 := ⟨fuel - 1, by omega⟩
      obtain ⟨key, value⟩ := member
      obtain ⟨text, rfl, htext⟩ := htext
      have hquote : isSpace '"' = false := by decide
      have hcolon : isSpace ':' = false := by decide
      have hcomma : isSpace ',' = false := by decide
      have hbrace : isSpace '\x7d' = false := by decide
      cases hmore with
      | nil =>
          rw [commaSeparated_singleton] at hfuel ⊢
          simp only [memberText, quote, List.length_append, List.length_cons] at hfuel
          have hread := htext.read fuel ('\x7d' :: rest) (by omega) (endsNumber_brace rest)
          simp [readMembers, memberText, quote, skipSpace_cons _ hquote, readString_quoted,
            skipSpace_cons _ hcolon, hread, skipSpace_cons _ hbrace]
      | @cons text' member' texts members htext' hmore =>
          rw [commaSeparated_cons_cons] at hfuel ⊢
          simp only [memberText, quote, List.length_append, List.length_cons] at hfuel
          have hread := htext.read fuel
            (',' :: (commaSeparated (text' :: texts) ++ '\x7d' :: rest)) (by omega)
            (endsNumber_comma _)
          have hmembers := ih (by simp) fuel (by omega)
          simp [readMembers, memberText, quote, skipSpace_cons _ hquote, readString_quoted,
            skipSpace_cons _ hcolon, hread, skipSpace_cons _ hcomma, hmembers]

theorem standsFor_array {texts : List (List Char)} {values : List Json}
    (htexts : List.Forall₂ StandsFor texts values) :
    StandsFor ('[' :: commaSeparated texts ++ [']']) (array values) := by
  refine ⟨⟨'[', _, rfl, by decide, by decide⟩, ?_⟩
  intro fuel rest hfuel _
  obtain ⟨fuel, rfl⟩ : ∃ n, fuel = n + 1 := ⟨fuel - 1, by omega⟩
  simp only [List.cons_append, List.append_assoc, List.nil_append]
  rw [readValue, skipSpace_cons _ (by decide)]
  cases htexts with
  | nil => simp [skipSpace_cons _ (show isSpace ']' = false by decide)]
  | @cons text value texts values htext hmore =>
      have hall := List.Forall₂.cons htext hmore
      obtain ⟨c, cs, hstart, hspace, hclose⟩ : ∃ c cs,
          commaSeparated (text :: texts) ++ ']' :: rest = c :: cs ∧
            isSpace c = false ∧ c ≠ ']' := by
        obtain ⟨c, cs, rfl, hspace, hclose⟩ := htext.start
        cases texts with
        | nil => exact ⟨c, cs ++ ']' :: rest, by simp, hspace, hclose⟩
        | cons text' texts =>
            refine ⟨c, cs ++ ',' :: (commaSeparated (text' :: texts) ++ ']' :: rest), ?_,
              hspace, hclose⟩
            simp
      have hitems := readItems_commaSeparated hall (by simp) rest fuel (by
        simp only [List.length_append, List.length_cons] at hfuel
        omega)
      simp only
      rw [hstart] at hitems ⊢
      rw [skipSpace_cons _ hspace]
      split
      · rename_i heq
        exact absurd (List.cons.inj heq).1 hclose
      · rw [hitems]
        rfl

theorem readableMembers?_some (members : List (String × Json)) :
    readableMembers? (members.map fun m => (some m.1, m.2)) = some members := by
  induction members with
  | nil => rfl
  | cons m members ih => simp [readableMembers?, ih]

theorem standsFor_object {texts : List (List Char)} {members : List (String × Json)}
    (htexts : List.Forall₂ MemberStandsFor texts members) :
    StandsFor ('\x7b' :: commaSeparated texts ++ ['\x7d']) (object members) := by
  refine ⟨⟨'\x7b', _, rfl, by decide, by decide⟩, ?_⟩
  intro fuel rest hfuel _
  obtain ⟨fuel, rfl⟩ : ∃ n, fuel = n + 1 := ⟨fuel - 1, by omega⟩
  simp only [List.cons_append, List.append_assoc, List.nil_append]
  rw [readValue, skipSpace_cons _ (by decide)]
  cases htexts with
  | nil => simp [skipSpace_cons _ (show isSpace '\x7d' = false by decide)]
  | @cons text member texts members htext hmore =>
      have hall := List.Forall₂.cons htext hmore
      obtain ⟨cs, hstart⟩ : ∃ cs,
          commaSeparated (text :: texts) ++ '\x7d' :: rest = '"' :: cs := by
        obtain ⟨value, rfl, -⟩ := htext
        cases texts with
        | nil => exact ⟨_, by rw [commaSeparated_singleton, memberText, quote]; rfl⟩
        | cons text' texts =>
            exact ⟨_, by rw [commaSeparated_cons_cons, memberText, quote]; rfl⟩
      have hmembers := readMembers_commaSeparated hall (by simp) rest fuel (by
        simp only [List.length_append, List.length_cons] at hfuel
        omega)
      simp only
      rw [hstart] at hmembers ⊢
      rw [skipSpace_cons _ (by decide)]
      split
      · rename_i heq
        exact absurd (List.cons.inj heq).1 (by decide)
      · rw [hmembers]
        simp only [Option.map_some, ofMembers, readableMembers?_some, Option.elim_some]

/-- A text stands for one value only. -/
theorem StandsFor.unique {text : List Char} {value value' : Json} (htext : StandsFor text value)
    (htext' : StandsFor text value') : value = value' := by
  have hread := htext.read (2 * text.length + 1) [] (by omega) endsNumber_nil
  have hread' := htext'.read (2 * text.length + 1) [] (by omega) endsNumber_nil
  exact (Prod.mk.inj (Option.some.inj (hread.symm.trans hread'))).1

/-- A text that stands for a value is a text of that value, as far as it does not nest too
deeply. -/
theorem StandsFor.parse? {text : List Char} {value : Json} (htext : StandsFor text value) :
    parse? (String.ofList text) = some (value.limitDepth maxDepth) := by
  have hread := htext.read (2 * text.length + 1) [] (by omega) endsNumber_nil
  rw [List.append_nil] at hread
  simp only [Json.parse?, String.toList_ofList, hread, bind, Option.bind]
  rfl

end GrpcContract.Json
