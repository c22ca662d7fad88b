import GrpcContract.Proofs.Utf8
import Mathlib.Data.String.Basic

/-!
# The order of UTF-8

UTF-8 keeps the order of characters: texts compare by their bytes as by their code points. So
strings that are ordered by character, as `String` has it, are ordered by byte.
-/

namespace GrpcContract.Text.Utf8

theorem ofNat_cons_lt_iff {x y : Nat} (hx : x < 256) (hy : y < 256) {bs cs : List UInt8} :
    UInt8.ofNat x :: bs < UInt8.ofNat y :: cs ↔ x < y ∨ x = y ∧ bs < cs := by
  have heq : UInt8.ofNat x = UInt8.ofNat y ↔ x = y := by
    rw [← UInt8.toNat_inj, UInt8.toNat_ofNat', UInt8.toNat_ofNat']
    omega
  rw [List.cons_lt_cons_iff, ofNat_lt_iff hx hy, heq]

/-- A character that comes before another is written with bytes that come before those of the
other, whatever follows either. -/
theorem utf8EncodeChar_append_lt {c d : Char} (hlt : c < d) (bs cs : List UInt8) :
    String.utf8EncodeChar c ++ bs < String.utf8EncodeChar d ++ cs := by
  have hval : c.val.toNat < d.val.toNat := hlt
  have hvalid : d.val.toNat < 0xD800 ∨ 0xDFFF < d.val.toNat ∧ d.val.toNat < 0x110000 := d.valid
  unfold String.utf8EncodeChar
  generalize c.val.toNat = v at hval
  generalize d.val.toNat = w at hval hvalid
  have hgroups (n : Nat) (hn : n < 0x110000) : n / 262144 % 8 = n / 262144 ∧
      n / 4096 = n / 64 / 64 ∧ n / 262144 = n / 4096 / 64 := by omega
  have hv := hgroups v (by omega)
  have hw := hgroups w (by omega)
  simp only
  -- The first byte tells how many follow, and more of them follow a greater one.
  repeat' split
  all_goals simp (disch := omega) only [List.cons_append, List.nil_append, ofNat_cons_lt_iff]
  all_goals omega

/-- Texts that are ordered by character are ordered by byte. -/
theorem encode_lt_encode {cs ds : List Char} (hlt : cs < ds) : encode cs < encode ds := by
  induction hlt with
  | @nil d ds =>
      obtain ⟨b, bs, hbytes, -⟩ := next_utf8EncodeChar d []
      rw [encode_cons, hbytes, List.cons_append]
      exact List.nil_lt_cons b _
  | @rel c cs d ds hcd =>
      rw [encode_cons, encode_cons]
      exact utf8EncodeChar_append_lt hcd _ _
  | @cons c cs ds htail ih =>
      rw [encode_cons, encode_cons]
      exact List.append_left_lt ih

end GrpcContract.Text.Utf8
