import GrpcContract.Json.Parser
import GrpcContract.Json.Printer

/-!
# Strings in JSON text

A quoted string reads back as the string, whatever follows it. An escaped control character comes
back as a code unit; it is far below the surrogates, so it stands for itself.
-/

namespace GrpcContract.Json

/-- Whether a character is written as an escape of four hexadecimal digits. -/
def isLongEscape (c : Char) : Bool :=
  c.toNat < 0x20 && c != '\x08' && c != '\t' && c != '\n' && c != '\x0c' && c != '\r'

/-- What the written form of a character reads as. -/
def pieceOf (c : Char) : Piece :=
  if isLongEscape c then .codeUnit c.toNat else .char c

theorem hexValue?_hexDigit {n : Nat} (hlt : n < 16) : hexValue? (hexDigit n) = some n := by
  have hall : ∀ k < 16, hexValue? (hexDigit k) = some k := by decide
  exact hall n hlt

theorem codeUnit?_hexDigit {n : Nat} (hlt : n < 0x20) :
    codeUnit? '0' '0' (hexDigit (n / 16)) (hexDigit (n % 16)) = some n := by
  have hzero : hexValue? '0' = some 0 := by decide
  simp only [codeUnit?, hzero, hexValue?_hexDigit (show n / 16 < 16 by omega),
    hexValue?_hexDigit (show n % 16 < 16 by omega), Option.bind_eq_bind, Option.bind_some,
    Option.pure_def, Option.some.injEq]
  omega

theorem readPieces_short {e c : Char} (rest : List Char) (hletter : unescape? e = some c) :
    readPieces ('\\' :: e :: rest) =
      (readPieces rest).map fun p => (.char c :: p.1, p.2) := by
  have hne : e ≠ 'u' := by
    rintro rfl
    simp [unescape?] at hletter
  rw [readPieces.eq_4 e rest fun _ _ _ _ _ heq _ => hne heq, hletter]
  cases readPieces rest <;> rfl

theorem readPieces_long {n : Nat} (rest : List Char) (hlt : n < 0x20) :
    readPieces ('\\' :: 'u' :: '0' :: '0' :: hexDigit (n / 16) :: hexDigit (n % 16) :: rest) =
      (readPieces rest).map fun p => (.codeUnit n :: p.1, p.2) := by
  rw [readPieces.eq_3, codeUnit?_hexDigit hlt]
  cases readPieces rest <;> rfl

theorem readPieces_plain {c : Char} (rest : List Char) (hquote : c ≠ '"') (hslash : c ≠ '\\')
    (hprint : ¬c.toNat < 0x20) :
    readPieces (c :: rest) = (readPieces rest).map fun p => (.char c :: p.1, p.2) := by
  rw [readPieces.eq_5 c rest hquote (fun _ _ _ _ _ heq _ => hslash heq)
    (fun _ _ heq _ => hslash heq)]
  simp only [hprint, decide_false, beq_eq_false_iff_ne.mpr hslash, Bool.or_self,
    Bool.false_eq_true, ↓reduceIte]
  cases readPieces rest <;> rfl

theorem readPieces_escape (c : Char) (rest : List Char) :
    readPieces (escape c ++ rest) =
      (readPieces rest).map fun p => (pieceOf c :: p.1, p.2) := by
  unfold escape
  split
  case h_8 hquote hslash hback htab hline hfeed hreturn =>
      split
      · rename_i hcontrol
        have hpiece : pieceOf c = .codeUnit c.toNat := by
          simp only [pieceOf, isLongEscape, hcontrol, decide_true, Bool.true_and, Bool.and_eq_true,
            bne_iff_ne, ne_eq, ite_eq_left_iff, not_and, reduceCtorEq, imp_false]
          exact fun hshort => hshort ⟨⟨⟨hback, htab⟩, hline⟩, hfeed⟩ hreturn
        rw [hpiece]
        exact readPieces_long rest hcontrol
      · rename_i hprint
        have hpiece : pieceOf c = .char c := by
          simp [pieceOf, isLongEscape, hprint]
        rw [hpiece]
        exact readPieces_plain rest hquote hslash hprint
  all_goals exact readPieces_short rest (by decide)

theorem readPieces_escaped (cs rest : List Char) :
    readPieces (cs.flatMap escape ++ '"' :: rest) = some (cs.map pieceOf, rest) := by
  induction cs with
  | nil => exact readPieces.eq_2 rest
  | cons c cs ih =>
      rw [List.flatMap_cons, List.append_assoc, readPieces_escape, ih]
      rfl

theorem toNat_lt_of_isLongEscape {c : Char} (hlong : isLongEscape c = true) : c.toNat < 0x20 := by
  simp only [isLongEscape, Bool.and_eq_true, decide_eq_true_eq] at hlong
  exact hlong.1.1.1.1.1

theorem joinPieces?_codeUnit {n : Nat} (pieces : List Piece) (hlt : n < 0x20) :
    joinPieces? (.codeUnit n :: pieces) = (joinPieces? pieces).map (Char.ofNat n :: ·) := by
  have hhigh : isHighSurrogate n = false := by simp [isHighSurrogate]; omega
  have hlow : isLowSurrogate n = false := by simp [isLowSurrogate]; omega
  cases pieces with
  | nil => simp [joinPieces?, hhigh, hlow]
  | cons piece rest =>
      cases piece with
      | char c => rw [joinPieces?.eq_4 n _ (by simp)]; simp [hhigh, hlow]
      | codeUnit l => rw [joinPieces?.eq_3]; simp [hhigh, hlow]

theorem joinPieces?_pieceOf (cs : List Char) : joinPieces? (cs.map pieceOf) = some cs := by
  induction cs with
  | nil => rfl
  | cons c cs ih =>
      by_cases hlong : isLongEscape c = true
      · simp only [List.map_cons, pieceOf, hlong, ↓reduceIte]
        rw [joinPieces?_codeUnit _ (toNat_lt_of_isLongEscape hlong), ih]
        simp [Char.ofNat_toNat]
      · simp only [List.map_cons, pieceOf, hlong]
        simp [joinPieces?, ih]

theorem readString_quoted (s : String) (rest : List Char) :
    readString (s.toList.flatMap escape ++ '"' :: rest) = some (some s, rest) := by
  simp [readString, readPieces_escaped, joinPieces?_pieceOf]

end GrpcContract.Json
