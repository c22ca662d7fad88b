import GrpcContract.Message.Wire
import Mathlib

/-!
# Reading what was written

A number of at most 64 bits is read back from its groups of seven bits, and so are a record that
holds one and a record of bytes. Numbers packed into one record are read back one after the other.
-/

namespace GrpcContract

namespace Wire

theorem varint_of_lt {n : Nat} (hn : n < 128) : varint n = [UInt8.ofNat n] := by
  rw [varint, if_pos hn]

theorem varint_of_le {n : Nat} (hn : 128 ≤ n) :
    varint n = UInt8.ofNat (n % 128 + 128) :: varint (n / 128) := by
  rw [varint, if_neg (Nat.not_lt.mpr hn)]

theorem length_varint_pos (n : Nat) : 0 < (varint n).length := by
  by_cases hn : n < 128
  · simp [varint_of_lt hn]
  · simp [varint_of_le (Nat.not_lt.mp hn)]

theorem length_varint_le {count n : Nat} (hn : n < 128 ^ (count + 1)) :
    (varint n).length ≤ count + 1 := by
  induction count generalizing n with
  | zero => simp [varint_of_lt hn]
  | succ count ih =>
      by_cases hsmall : n < 128
      · simp [varint_of_lt hsmall]
      · have hrest : n / 128 < 128 ^ (count + 1) := by
          rw [Nat.div_lt_iff_lt_mul (by decide), ← Nat.pow_succ]
          exact hn
        rw [varint_of_le (Nat.not_lt.mp hsmall), List.length_cons]
        exact Nat.succ_le_succ (ih hrest)

/-- The last byte that may be read has room for one bit, any other for seven. -/
theorem readVarint_varint {count n : Nat} (hn : n < 2 * 128 ^ count) (rest : List UInt8) :
    readVarint (count + 1) (varint n ++ rest) = some (n, rest) := by
  induction count generalizing n with
  | zero =>
      obtain rfl | rfl : n = 0 ∨ n = 1 := by omega
      · rw [varint_of_lt (by decide)]
        rfl
      · rw [varint_of_lt (by decide)]
        rfl
  | succ count ih =>
      by_cases hsmall : n < 128
      · have hbyte : (UInt8.ofNat n).toNat = n := by
          rw [UInt8.toNat_ofNat']
          omega
        have hlast : UInt8.ofNat n < 128 := by
          rw [UInt8.lt_iff_toNat_lt, hbyte]
          exact hsmall
        simp [varint_of_lt hsmall, readVarint, hlast, hbyte]
      · have hbyte : (UInt8.ofNat (n % 128 + 128)).toNat = n % 128 + 128 := by
          rw [UInt8.toNat_ofNat']
          omega
        have hmore : ¬ UInt8.ofNat (n % 128 + 128) < 128 := by
          rw [UInt8.lt_iff_toNat_lt, hbyte]
          exact Nat.not_lt.mpr (Nat.le_add_left ..)
        have hrest : n / 128 < 2 * 128 ^ count := by
          rw [Nat.div_lt_iff_lt_mul (by decide), Nat.mul_assoc, ← Nat.pow_succ]
          exact hn
        have hvalue : (n % 128 + 128) % 128 + 128 * (n / 128) = n := by omega
        rw [varint_of_le (Nat.not_lt.mp hsmall), List.cons_append, readVarint, if_neg hmore,
          ih hrest]
        simp only [bind, Option.bind, hbyte, hvalue]
        rfl

theorem readNumber_varint {n : Nat} (hn : n < 0x10000000000000000) (rest : List UInt8) :
    readNumber (varint n ++ rest) = some (n, rest) :=
  readVarint_varint hn rest

theorem readDelimited_delimited {bs : List UInt8} (hlength : bs.length < 0x10000000000000000)
    (rest : List UInt8) : readDelimited (delimited bs ++ rest) = some (bs, rest) := by
  rw [readDelimited, delimited, List.append_assoc, readNumber_varint hlength]
  simp [take?]

theorem Form.ofCode?_code (form : Form) : ofCode? form.code = some form := by
  cases form <;> rfl

theorem Form.code_lt (form : Form) : form.code < 8 := by
  cases form <;> decide

theorem readTag_tag {number : Nat} (hpos : 0 < number) (hnumber : number < 0x20000000)
    (form : Form) (rest : List UInt8) :
    readTag (tag number form ++ rest) = some ((number, form), rest) := by
  have hcode := form.code_lt
  have hkey : 8 * number + form.code < 0x100000000 ∧ 8 ≤ 8 * number + form.code := by omega
  have hquotient : (8 * number + form.code) / 8 = number := by omega
  have hremainder : (8 * number + form.code) % 8 = form.code := by omega
  rw [readTag, tag, readNumber_varint (by omega)]
  simp [hkey, hquotient, hremainder, Form.ofCode?_code, guard]

/-- A record alone is read as its content, if that is of the form that its tag tells. -/
theorem records?_of_readValue {isBytes : Nat → Bool} {depth number : Nat} {form : Form}
    {content : List UInt8} {w : WireValue} (hpos : 0 < number) (hnumber : number < 0x20000000)
    (hform : isBytes number = true → form = .bytes)
    (hread : ∀ fuel, readValue (fuel + 1) depth number form content = some (w, [])) :
    records? isBytes depth (tag number form ++ content) = some [(number, w)] := by
  obtain ⟨b, bs, hbs⟩ : ∃ b bs, tag number form ++ content = b :: bs := by
    cases htag : tag number form with
    | nil =>
        have htagged := length_varint_pos (8 * number + form.code)
        rw [← tag, htag] at htagged
        cases htagged
    | cons b bs => exact ⟨b, bs ++ content, rfl⟩
  have htold : (if isBytes number = true then Form.bytes else form) = form := by
    split
    · exact (hform ‹_›).symm
    · rfl
  have htag := readTag_tag hpos hnumber form content
  rw [hbs] at htag
  rw [records?, hbs, List.length_cons, readRecords]
  · simp only [htag, Option.bind_eq_bind, Option.bind_some, htold, hread]
    cases bs.length <;> rfl
  · simp

theorem records?_varint {isBytes : Nat → Bool} (depth : Nat) {number n : Nat} (hpos : 0 < number)
    (hnumber : number < 0x20000000) (hform : isBytes number = false)
    (hn : n < 0x10000000000000000) :
    records? isBytes depth (tag number .varint ++ varint n) =
      some [(number, .varint (UInt64.ofNat n))] := by
  apply records?_of_readValue hpos hnumber (by simp [hform])
  intro fuel
  have hread := readNumber_varint hn []
  rw [List.append_nil] at hread
  rw [readValue, hread, Option.map_some]

theorem records?_bytesRecord (isBytes : Nat → Bool) (depth : Nat) {number : Nat}
    {bs : List UInt8} (hpos : 0 < number) (hnumber : number < 0x20000000)
    (hlength : bs.length < 0x10000000000000000) :
    records? isBytes depth (bytesRecord number bs) = some [(number, .bytes bs)] := by
  apply records?_of_readValue hpos hnumber (fun _ => rfl)
  intro fuel
  have hread := readDelimited_delimited hlength []
  rw [List.append_nil] at hread
  rw [readValue, hread, Option.map_some]

end Wire

/-- A type whose values are numbers of at most 64 bits on the wire, and are read back from them. -/
structure FieldType.ReadsNumbers (type : FieldType) (number : α → Nat) (scalar : α → Scalar) :
    Prop where
  form : type.form = .varint
  lt : ∀ a, number a < 0x10000000000000000
  ofWire : ∀ a, type.ofWire? (.varint (UInt64.ofNat (number a))) = some (scalar a)

/-- Packed numbers are read back, given at least as much fuel as there are numbers. -/
theorem FieldType.ReadsNumbers.readPacked {type : FieldType} {number : α → Nat}
    {scalar : α → Scalar} (hreads : type.ReadsNumbers number scalar) (as : List α) {fuel : Nat}
    (hfuel : as.length ≤ fuel) :
    type.readPacked fuel (as.flatMap fun a => Wire.varint (number a)) = some (as.map scalar) := by
  induction as generalizing fuel with
  | nil => cases fuel <;> rfl
  | cons a as ih =>
      obtain ⟨fuel, rfl⟩ : ∃ n, fuel = n + 1 := ⟨fuel - 1, by simp at hfuel; omega⟩
      have hread := Wire.readNumber_varint (hreads.lt a)
        (as.flatMap fun a => Wire.varint (number a))
      have hrest := ih (Nat.le_of_succ_le_succ hfuel)
      rw [List.flatMap_cons]
      obtain ⟨b, bs, hbs⟩ := List.exists_cons_of_length_pos (Wire.length_varint_pos (number a))
      rw [hbs, List.cons_append] at hread ⊢
      rw [FieldType.readPacked, hreads.form, Wire.readValue, hread]
      · simp [hreads.ofWire, hrest]
      · simp

end GrpcContract
