import GrpcContract.Text.Base64
import Mathlib.Data.Option.Basic

/-!
# Base64

What is written in the standard alphabet reads back as the bytes it was written from.
-/

namespace GrpcContract.Text.Base64

theorem value?_symbol (n : Nat) : value? standard (symbol n) = some (n % 64) := by
  have hall : ∀ k < 64, value? standard (standard.getD k 'A') = some k := by decide +kernel
  exact hall (n % 64) (Nat.mod_lt n (by decide))

theorem symbol_ne_padding (n : Nat) : (symbol n == '=') = false := by
  have hall : ∀ k < 64, (standard.getD k 'A' == '=') = false := by
    decide +kernel
  exact hall (n % 64) (Nat.mod_lt n (by decide))

theorem symbol_bne_padding (n : Nat) : (symbol n != '=') = true := by
  simp [bne, symbol_ne_padding]

theorem ofValues?_sextets (a b c : UInt8) :
    ofValues? [a.toNat / 4 % 64, (a.toNat * 16 + b.toNat / 16) % 64,
      (b.toNat * 4 + c.toNat / 64) % 64, c.toNat % 64] = some [a, b, c] := by
  have ha : a.toNat < 256 := a.toNat_lt
  have hb : b.toNat < 256 := b.toNat_lt
  have hc : c.toNat < 256 := c.toNat_lt
  simp only [ofValues?, Option.some.injEq, List.cons.injEq, and_true]
  refine ⟨?_, ?_, ?_⟩ <;> apply UInt8.toNat_inj.mp <;> rw [UInt8.toNat_ofNat'] <;> omega

theorem ofValues?_two (a : UInt8) :
    ofValues? [a.toNat / 4 % 64, a.toNat * 16 % 64] = some [a] := by
  have ha : a.toNat < 256 := a.toNat_lt
  simp only [ofValues?, Option.some.injEq, List.cons.injEq, and_true]
  apply UInt8.toNat_inj.mp
  rw [UInt8.toNat_ofNat']
  omega

theorem ofValues?_three (a b : UInt8) :
    ofValues? [a.toNat / 4 % 64, (a.toNat * 16 + b.toNat / 16) % 64, b.toNat * 4 % 64] =
      some [a, b] := by
  have ha : a.toNat < 256 := a.toNat_lt
  have hb : b.toNat < 256 := b.toNat_lt
  simp only [ofValues?, Option.some.injEq, List.cons.injEq, and_true]
  refine ⟨?_, ?_⟩ <;> apply UInt8.toNat_inj.mp <;> rw [UInt8.toNat_ofNat'] <;> omega

theorem decodeWith?_encode (bs : List UInt8) : decodeWith? standard (encode bs) = some bs := by
  induction bs using encode.induct with
  | case1 => rfl
  | case2 a =>
      simp [encode, decodeWith?, decodeLast?, guard, symbol_bne_padding, value?_symbol,
        ofValues?_two]
  | case3 a b =>
      simp [encode, decodeWith?, decodeLast?, guard, symbol_bne_padding, value?_symbol,
        ofValues?_three]
  | case4 a b c rest ih =>
      cases hrest : encode rest with
      | nil =>
          have hnil : rest = [] := by simpa [hrest, decodeWith?] using ih.symm
          simp [encode, hnil, decodeWith?, decodeLast?, guard, symbol_bne_padding, value?_symbol,
            ofValues?_sextets]
      | cons e more =>
          rw [hrest] at ih
          simp [encode, hrest, decodeWith?, value?_symbol, ofValues?_sextets, ih]

/-- Bytes read back from their written form. -/
@[simp]
theorem decode?_encode (bs : List UInt8) : decode? (encode bs) = some bs := by
  simp [decode?, decodeWith?_encode]

end GrpcContract.Text.Base64
