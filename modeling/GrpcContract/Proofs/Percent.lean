import GrpcContract.Http.Headers
import GrpcContract.Proofs.Utf8
import GrpcContract.Text.Percent

/-!
# Percent-encoding

Reading gives back every text that was written, and reads a text without escapes as itself. What is
written is printable ASCII, so a header can hold it, and shows every percent sign in an escape.
-/

namespace GrpcContract.Text.Percent

/-! ### Bytes -/

/-- A digit is written as one byte, which has the digit's value. -/
theorem hexValue?_hexDigit : ∀ n < 16,
    String.utf8EncodeChar (hexDigit n) = [UInt8.ofNat (hexDigit n).toNat] ∧
      hexValue? (UInt8.ofNat (hexDigit n).toNat) = some n := by
  decide

theorem unescape_of_ne {b : UInt8} (hne : b ≠ 0x25) (rest : List UInt8) :
    unescape (b :: rest) = b :: unescape rest := by
  rw [unescape]
  intro hi lo rest' hb
  exact absurd hb hne

theorem unescape_of_escape {hi lo b : UInt8} (hescape : escape? hi lo = some b)
    (rest : List UInt8) : unescape (0x25 :: hi :: lo :: rest) = b :: unescape rest := by
  simp [unescape, hescape]

theorem lt_of_plain {b : UInt8} (hplain : isPlain b = true) : b < 0x80 := by
  simp only [isPlain, Bool.and_eq_true, decide_eq_true_eq] at hplain
  exact UInt8.lt_of_le_of_lt hplain.1.2 (by decide)

theorem utf8EncodeChar_of_plain {b : UInt8} (hplain : isPlain b = true) :
    String.utf8EncodeChar (Char.ofNat b.toNat) = [b] :=
  Utf8.utf8EncodeChar_ofNat (lt_of_plain hplain)

theorem ne_of_plain {b : UInt8} (hplain : isPlain b = true) : b ≠ 0x25 := by
  simp only [isPlain, Bool.and_eq_true, bne_iff_ne] at hplain
  exact hplain.2

theorem unescape_encodeByte (b : UInt8) (rest : List UInt8) :
    unescape (Utf8.encode (encodeByte b) ++ rest) = b :: unescape rest := by
  unfold encodeByte
  split
  · rename_i hplain
    simp only [Utf8.encode, List.flatMap_cons, List.flatMap_nil, utf8EncodeChar_of_plain hplain,
      List.append_nil, List.cons_append, List.nil_append]
    exact unescape_of_ne (ne_of_plain hplain) rest
  · have hlt : b.toNat < 256 := b.toNat_lt
    obtain ⟨hhi, hhiValue⟩ := hexValue?_hexDigit (b.toNat / 16) (by omega)
    obtain ⟨hlo, hloValue⟩ := hexValue?_hexDigit (b.toNat % 16) (by omega)
    have hescape : escape? (UInt8.ofNat (hexDigit (b.toNat / 16)).toNat)
        (UInt8.ofNat (hexDigit (b.toNat % 16)).toNat) = some b := by
      have hvalue : b.toNat / 16 * 16 + b.toNat % 16 = b.toNat := by omega
      simp only [escape?, hhiValue, hloValue, bind, Option.bind, pure, hvalue, UInt8.ofNat_toNat]
    have hpercent : String.utf8EncodeChar '%' = [0x25] := by decide
    simp only [Utf8.encode, List.flatMap_cons, List.flatMap_nil, hpercent, hhi, hlo,
      List.append_nil, List.cons_append, List.nil_append]
    exact unescape_of_escape hescape rest

/-! ### Texts -/

theorem unescape_flatMap (bs : List UInt8) :
    unescape (Utf8.encode (bs.flatMap encodeByte)) = bs := by
  induction bs with
  | nil => rfl
  | cons b bs ih => rw [List.flatMap_cons, Utf8.encode_append, unescape_encodeByte, ih]

theorem decode_encode (s : String) : decode (encode s) = s := by
  simp [decode, encode, unescape_flatMap, Utf8.decodeLossy_encode]

theorem decodeBytes?_headerValue_encode (s : String) :
    decodeBytes? (headerValue (encode s)) = some s := by
  simp [decodeBytes?, headerValue, encode, unescape_flatMap, Utf8.decode?_encode]

/-! ### Written texts in headers -/

/-- Whether a character is shown as itself in a header. -/
def isShown (c : Char) : Bool :=
  0x20 ≤ c.toNat && c.toNat ≤ 0x7E

theorem isShown_hexDigit : ∀ n < 16, isShown (hexDigit n) = true := by
  decide

theorem isShown_of_mem_encodeByte {b : UInt8} {c : Char} (hmem : c ∈ encodeByte b) :
    isShown c = true := by
  unfold encodeByte at hmem
  split at hmem
  · rename_i hplain
    have hvalue := Utf8.toNat_ofNat_of_lt (lt_of_plain hplain)
    simp only [isPlain, Bool.and_eq_true, decide_eq_true_eq] at hplain
    have hlow : 0x20 ≤ b.toNat := UInt8.le_iff_toNat_le.mp hplain.1.1
    have hhigh : b.toNat ≤ 0x7E := UInt8.le_iff_toNat_le.mp hplain.1.2
    obtain rfl := List.mem_singleton.mp hmem
    simp [isShown, hvalue, hlow, hhigh]
  · have hlt : b.toNat < 256 := b.toNat_lt
    simp only [List.mem_cons, List.not_mem_nil, or_false] at hmem
    rcases hmem with rfl | rfl | rfl
    · decide
    · exact isShown_hexDigit _ (by omega)
    · exact isShown_hexDigit _ (by omega)

theorem isShown_of_mem_encode {s : String} {c : Char} (hmem : c ∈ (encode s).toList) :
    isShown c = true := by
  rw [encode, String.toList_ofList] at hmem
  obtain ⟨b, -, hc⟩ := List.mem_flatMap.mp hmem
  exact isShown_of_mem_encodeByte hc

/-- A character that is shown as itself is one byte, and one that shows. -/
theorem exists_utf8EncodeChar_of_isShown {c : Char} (hshown : isShown c = true) :
    ∃ b : UInt8, String.utf8EncodeChar c = [b] ∧ 0x20 ≤ b ∧ b ≤ 0x7E ∧ Char.ofNat b.toNat = c := by
  simp only [isShown, Bool.and_eq_true, decide_eq_true_eq] at hshown
  have hvalue : (UInt8.ofNat c.toNat).toNat = c.toNat := by
    rw [UInt8.toNat_ofNat']
    omega
  refine ⟨UInt8.ofNat c.toNat, Utf8.utf8EncodeChar_of_lt (by omega), ?_, ?_, ?_⟩
  · rw [UInt8.le_iff_toNat_le, hvalue]
    exact hshown.1
  · rw [UInt8.le_iff_toNat_le, hvalue]
    exact hshown.2
  · rw [hvalue, Char.ofNat_toNat]

theorem encode_of_isShown {cs : List Char} (hshown : ∀ c ∈ cs, isShown c = true) :
    (∀ b ∈ Utf8.encode cs, 0x20 ≤ b ∧ b ≤ 0x7E) ∧
      (Utf8.encode cs).map (fun b => Char.ofNat b.toNat) = cs := by
  induction cs with
  | nil => simp [Utf8.encode]
  | cons c cs ih =>
      obtain ⟨b, hbyte, hlow, hhigh, hchar⟩ := exists_utf8EncodeChar_of_isShown (hshown c (by simp))
      obtain ⟨hbytes, hmap⟩ := ih fun c hc => hshown c (by simp [hc])
      rw [Utf8.encode_cons, hbyte, List.cons_append, List.nil_append, List.map_cons, hchar, hmap]
      exact ⟨List.forall_mem_cons.mpr ⟨⟨hlow, hhigh⟩, hbytes⟩, rfl⟩

theorem headerText?_headerValue {s : String} (hshown : ∀ c ∈ s.toList, isShown c = true) :
    headerText? (headerValue s) = some s := by
  obtain ⟨hbytes, hmap⟩ := encode_of_isShown hshown
  have hall : ((headerValue s).all fun b => (0x20 ≤ b && b ≤ 0x7E) || b == 0x09) = true := by
    rw [List.all_eq_true]
    intro b hb
    simp [hbytes b hb]
  rw [headerText?, if_pos hall, headerValue, hmap, String.ofList_toList]

/-- A value that shows as a text is that text, written in ASCII. -/
theorem headerValue_of_headerText? {value : List UInt8} {s : String}
    (htext : headerText? value = some s) :
    headerValue s = value ∧ ∀ c ∈ s.toList, c.utf8Size = 1 := by
  unfold headerText? at htext
  split at htext
  · rename_i hall
    obtain rfl := Option.some.inj htext
    have hascii : ∀ b ∈ value, b < 0x80 := by
      intro b hb
      have hshows := List.all_eq_true.mp hall b hb
      simp only [Bool.or_eq_true, Bool.and_eq_true, decide_eq_true_eq, beq_iff_eq] at hshows
      rcases hshows with ⟨-, hhigh⟩ | rfl
      · exact UInt8.lt_of_le_of_lt hhigh (by decide)
      · decide
    rw [headerValue, String.toList_ofList]
    refine ⟨Utf8.encode_map_ofNat hascii, fun c hc => ?_⟩
    obtain ⟨b, hb, rfl⟩ := List.mem_map.mp hc
    rw [← String.length_utf8EncodeChar, Utf8.utf8EncodeChar_ofNat (hascii b hb)]
    rfl
  · cases htext

/-! ### Escapes -/

def isHexDigit (c : Char) : Bool :=
  c.isDigit || ('a' ≤ c && c ≤ 'f') || ('A' ≤ c && c ≤ 'F')

def isUpperHexDigit (c : Char) : Bool :=
  c.isDigit || ('A' ≤ c && c ≤ 'F')

/-- Whether a text begins with a percent sign and two digits of a kind. -/
def beginsEscape (isDigit : Char → Bool) : List Char → Bool
  | '%' :: hi :: lo :: _ => isDigit hi && isDigit lo
  | _ => false

theorem isUpperHexDigit_hexDigit : ∀ n < 16,
    isUpperHexDigit (hexDigit n) = true ∧ hexDigit n ≠ '%' := by
  decide

theorem utf8EncodeChar_percent : String.utf8EncodeChar '%' = [0x25] := by
  decide

theorem ofNat_ne_percent_of_plain {b : UInt8} (hplain : isPlain b = true) :
    Char.ofNat b.toNat ≠ '%' := by
  intro hpercent
  have hbytes := utf8EncodeChar_of_plain hplain
  rw [hpercent, utf8EncodeChar_percent] at hbytes
  exact ne_of_plain hplain (List.singleton_inj.mp hbytes).symm

theorem beginsEscape_of_suffix_encodeByte (b : UInt8) {rest cs : List Char}
    (hrest : '%' :: cs <:+ rest → beginsEscape isUpperHexDigit ('%' :: cs) = true)
    (hsuffix : '%' :: cs <:+ encodeByte b ++ rest) :
    beginsEscape isUpperHexDigit ('%' :: cs) = true := by
  unfold encodeByte at hsuffix
  split at hsuffix
  · rename_i hplain
    simp only [List.cons_append, List.nil_append, List.suffix_cons_iff, List.cons.injEq] at hsuffix
    rcases hsuffix with ⟨heq, -⟩ | hsuffix
    · exact absurd heq.symm (ofNat_ne_percent_of_plain hplain)
    · exact hrest hsuffix
  · have hlt : b.toNat < 256 := b.toNat_lt
    obtain ⟨hhi, hhiNe⟩ := isUpperHexDigit_hexDigit (b.toNat / 16) (by omega)
    obtain ⟨hlo, hloNe⟩ := isUpperHexDigit_hexDigit (b.toNat % 16) (by omega)
    simp only [List.cons_append, List.nil_append, List.suffix_cons_iff, List.cons.injEq] at hsuffix
    rcases hsuffix with ⟨-, rfl⟩ | ⟨heq, -⟩ | ⟨heq, -⟩ | hsuffix
    · simp [beginsEscape, hhi, hlo]
    · exact absurd heq.symm hhiNe
    · exact absurd heq.symm hloNe
    · exact hrest hsuffix

theorem beginsEscape_of_suffix_encode (s : String) {cs : List Char}
    (hsuffix : '%' :: cs <:+ (encode s).toList) :
    beginsEscape isUpperHexDigit ('%' :: cs) = true := by
  rw [encode, String.toList_ofList] at hsuffix
  generalize Utf8.encode s.toList = bs at hsuffix
  induction bs with
  | nil => simp at hsuffix
  | cons b bs ih => exact beginsEscape_of_suffix_encodeByte b ih hsuffix

/-! ### Texts without escapes -/

/-- A byte that is read as a digit is the character that is one. -/
theorem isHexDigit_of_hexValue? {c : Char} {b : UInt8} {bs : List UInt8} {n : Nat}
    (hbytes : String.utf8EncodeChar c = b :: bs) (hvalue : hexValue? b = some n) :
    bs = [] ∧ isHexDigit c = true := by
  have hranges : 0x30 ≤ b.toNat ∧ b.toNat ≤ 0x39 ∨ 0x61 ≤ b.toNat ∧ b.toNat ≤ 0x66 ∨
      0x41 ≤ b.toNat ∧ b.toNat ≤ 0x46 := by
    unfold hexValue? at hvalue
    simp only [Bool.and_eq_true, decide_eq_true_eq, UInt8.le_iff_toNat_le] at hvalue
    split at hvalue
    · exact .inl ‹_›
    · split at hvalue
      · exact .inr (.inl ‹_›)
      · split at hvalue
        · exact .inr (.inr ‹_›)
        · cases hvalue
  have hascii : b < 0x80 := by
    rw [UInt8.lt_iff_toNat_lt]
    change b.toNat < 128
    omega
  obtain ⟨hone, hsame⟩ := Utf8.utf8EncodeChar_of_mem_of_lt hascii (hbytes ▸ List.mem_cons_self)
  refine ⟨?_, ?_⟩
  · rw [hbytes] at hone
    exact (List.cons.inj hone).2
  · rw [hsame] at hranges
    simp only [isHexDigit, Char.isDigit, Bool.or_eq_true, Bool.and_eq_true, decide_eq_true_eq,
      Char.le_def, UInt32.le_iff_toNat_le]
    rcases hranges with hnumeral | hlower | hupper
    · exact .inl (.inl hnumeral)
    · exact .inl (.inr hlower)
    · exact .inr hupper

theorem unescape_append_of_not_mem {bs : List UInt8} (hbs : 0x25 ∉ bs) (rest : List UInt8) :
    unescape (bs ++ rest) = bs ++ unescape rest := by
  induction bs with
  | nil => rfl
  | cons b bs ih =>
      rw [List.mem_cons, not_or] at hbs
      rw [List.cons_append, unescape_of_ne (Ne.symm hbs.1), ih hbs.2, List.cons_append]

theorem not_mem_utf8EncodeChar_of_ne {c : Char} (hc : c ≠ '%') :
    0x25 ∉ String.utf8EncodeChar c := by
  intro hmem
  obtain ⟨-, hsame⟩ := Utf8.utf8EncodeChar_of_mem_of_lt (by decide) hmem
  exact hc (Char.toNat_inj.mp hsame.symm)

theorem beginsEscape_of_escape? {cs : List Char} {hi lo b : UInt8} {rest : List UInt8}
    (hbytes : Utf8.encode cs = hi :: lo :: rest) (hescape : escape? hi lo = some b) :
    beginsEscape isHexDigit ('%' :: cs) = true := by
  obtain ⟨high, hhi, hescape⟩ := Option.bind_eq_some_iff.mp hescape
  obtain ⟨low, hlo, -⟩ := Option.bind_eq_some_iff.mp hescape
  -- Each of the two bytes is all of a character.
  have hhead {c : Char} {cs : List Char} {b : UInt8} {bs : List UInt8} {n : Nat}
      (hbytes : Utf8.encode (c :: cs) = b :: bs) (hvalue : hexValue? b = some n) :
      Utf8.encode cs = bs ∧ isHexDigit c = true := by
    obtain ⟨b', bs', hchar, -⟩ := Utf8.next_utf8EncodeChar c []
    rw [Utf8.encode_cons, hchar, List.cons_append, List.cons.injEq] at hbytes
    obtain ⟨rfl, rfl⟩ := hbytes
    obtain ⟨rfl, hdigit⟩ := isHexDigit_of_hexValue? hchar hvalue
    exact ⟨rfl, hdigit⟩
  match cs with
  | [] => cases hbytes
  | [c] =>
      obtain ⟨hnone, -⟩ := hhead hbytes hhi
      cases hnone
  | c :: d :: cs =>
      obtain ⟨hbytes, hc⟩ := hhead hbytes hhi
      obtain ⟨-, hd⟩ := hhead hbytes hlo
      simp [beginsEscape, hc, hd]

theorem unescape_percent {cs : List Char}
    (hplain : beginsEscape isHexDigit ('%' :: cs) = false) :
    unescape (0x25 :: Utf8.encode cs) = 0x25 :: unescape (Utf8.encode cs) := by
  generalize hbytes : Utf8.encode cs = bytes
  match bytes with
  | [] | [_] => rfl
  | hi :: lo :: rest =>
      cases hescape : escape? hi lo with
      | none => rw [unescape, hescape]
      | some b =>
          rw [beginsEscape_of_escape? hbytes hescape] at hplain
          cases hplain

theorem unescape_encode {cs : List Char}
    (hplain : ∀ ds, '%' :: ds <:+ cs → beginsEscape isHexDigit ('%' :: ds) = false) :
    unescape (Utf8.encode cs) = Utf8.encode cs := by
  induction cs with
  | nil => rfl
  | cons c cs ih =>
      have htail := ih fun ds hds => hplain ds (List.suffix_cons_iff.mpr (.inr hds))
      rw [Utf8.encode_cons]
      by_cases hc : c = '%'
      · subst hc
        rw [utf8EncodeChar_percent, List.cons_append, List.nil_append,
          unescape_percent (hplain cs List.suffix_rfl), htail]
      · rw [unescape_append_of_not_mem (not_mem_utf8EncodeChar_of_ne hc), htail]

theorem decode_of_no_escape {t : String}
    (hplain : ∀ cs, '%' :: cs <:+ t.toList → beginsEscape isHexDigit ('%' :: cs) = false) :
    decode t = t := by
  rw [decode, unescape_encode hplain, Utf8.decodeLossy_encode, String.ofList_toList]

/-! ### Reading by positions -/

/-- Reads the escapes from a position on, looking at one byte after the other; there is no result
if a byte that is looked at is not there. -/
def unescapeFrom? (bs : List UInt8) (i : Nat) : Option (List UInt8) :=
  if i < bs.length then do
    let b ← bs[i]?
    if b = 0x25 ∧ i + 2 < bs.length then
      let hi ← bs[i + 1]?
      let lo ← bs[i + 2]?
      match escape? hi lo with
      | some escaped => return escaped :: (← unescapeFrom? bs (i + 3))
      | none => return b :: (← unescapeFrom? bs (i + 1))
    else return b :: (← unescapeFrom? bs (i + 1))
  else some []
termination_by bs.length - i

theorem unescape_of_not_escape {hi lo : UInt8} (hescape : escape? hi lo = none)
    (rest : List UInt8) :
    unescape (0x25 :: hi :: lo :: rest) = 0x25 :: unescape (hi :: lo :: rest) := by
  rw [unescape, hescape]

theorem unescape_of_short (b : UInt8) {bs : List UInt8} (hshort : bs.length < 2) :
    unescape (b :: bs) = b :: unescape bs := by
  match bs with
  | [] | [_] => simp [unescape]

/-- Every byte that is looked at is there, and what is read by positions is what is read. -/
theorem unescapeFrom?_eq (bs : List UInt8) (i : Nat) :
    unescapeFrom? bs i = some (unescape (bs.drop i)) := by
  fun_induction unescapeFrom? bs i with
  | case1 i hi ihEscape ihNone ihNext =>
      rw [List.getElem?_eq_getElem hi, List.drop_eq_getElem_cons hi]
      generalize bs[i] = b
      by_cases hroom : b = 0x25 ∧ i + 2 < bs.length
      · have htwo : i + 2 < bs.length := hroom.2
        have hone : i + 1 < bs.length := by omega
        have hnext : bs.drop (i + 1) = bs[i + 1] :: bs[i + 2] :: bs.drop (i + 3) := by
          rw [List.drop_eq_getElem_cons hone, List.drop_eq_getElem_cons htwo]
        simp only [Option.bind_eq_bind, Option.bind_some, if_pos hroom,
          List.getElem?_eq_getElem hone, List.getElem?_eq_getElem htwo, ihEscape b hroom, ihNext]
        rw [hroom.1, hnext]
        cases hescape : escape? bs[i + 1] bs[i + 2] with
        | some escaped => exact congrArg some (unescape_of_escape hescape _).symm
        | none => exact congrArg some (unescape_of_not_escape hescape _).symm
      · have hsame : unescape (b :: bs.drop (i + 1)) = b :: unescape (bs.drop (i + 1)) := by
          by_cases hb : b = 0x25
          · have hshort : (bs.drop (i + 1)).length < 2 := by
              rw [List.length_drop]
              have hend := mt (And.intro hb) hroom
              omega
            exact unescape_of_short b hshort
          · exact unescape_of_ne hb _
        rw [hsame]
        simp [if_neg hroom, ihNext]
  | case2 i hi =>
      rw [List.drop_eq_nil_of_le (Nat.le_of_not_lt hi), unescape]

/-! ### Messages in headers -/

/-- A written message consists of printable ASCII, so a header can hold it and shows it as a text;
every percent sign in it begins an escape of two upper-case digits; and it is read back as the
message. A text in which no percent sign begins an escape is read as itself. Reading never looks at
a byte that is not there, whatever it reads. -/
theorem encode_shown_decode (s t : String) (bs : List UInt8) :
    (∀ b ∈ headerValue (encode s), 0x20 ≤ b ∧ b ≤ 0x7E) ∧
      headerText? (headerValue (encode s)) = some (encode s) ∧
      (∀ cs, '%' :: cs <:+ (encode s).toList →
        beginsEscape isUpperHexDigit ('%' :: cs) = true) ∧
      decode (encode s) = s ∧
      ((∀ cs, '%' :: cs <:+ t.toList → beginsEscape isHexDigit ('%' :: cs) = false) →
        decode t = t) ∧
      unescapeFrom? bs 0 = some (unescape bs) := by
  have hshown : ∀ c ∈ (encode s).toList, isShown c = true := fun c => isShown_of_mem_encode
  exact ⟨(encode_of_isShown hshown).1, headerText?_headerValue hshown,
    fun cs => beginsEscape_of_suffix_encode s, decode_encode s, decode_of_no_escape,
    unescapeFrom?_eq bs 0⟩

end GrpcContract.Text.Percent

namespace GrpcContract.Sample

open Text.Percent

def discount : String := "5% off: é%2"

theorem discount_no_escape (cs : List Char) (hsuffix : '%' :: cs <:+ discount.toList) :
    beginsEscape isHexDigit ('%' :: cs) = false := by
  have hchars : discount.toList = ['5', '%', ' ', 'o', 'f', 'f', ':', ' ', 'é', '%', '2'] := by
    decide
  have hcases : cs = [' ', 'o', 'f', 'f', ':', ' ', 'é', '%', '2'] ∨ cs = ['2'] := by
    simpa [hchars, List.suffix_cons_iff] using hsuffix
  rcases hcases with rfl | rfl <;> rfl

/-- A text with percent signs that begin no escape is read as itself, and what is written for it is
read back. -/
theorem decode_discount :
    decode discount = discount ∧ decode (encode discount) = discount := by
  obtain ⟨-, -, -, hwritten, hplain, -⟩ := encode_shown_decode discount discount []
  exact ⟨hplain discount_no_escape, hwritten⟩

end GrpcContract.Sample
