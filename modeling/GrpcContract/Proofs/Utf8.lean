import GrpcContract.Text.Utf8

/-!
# UTF-8

Reading gives back every text that was written. A byte of ASCII stands for a character by itself.
-/

namespace GrpcContract.Text.Utf8

theorem eq_of_ofNat_beq {n : Nat} {b : UInt8} (hn : n < 256) (hbeq : (UInt8.ofNat n == b) = true) :
    n = b.toNat := by
  have htoNat := congrArg UInt8.toNat (eq_of_beq hbeq)
  rw [UInt8.toNat_ofNat'] at htoNat
  omega

theorem ofNat_le_ofNat {n m : Nat} (hm : m < 256) (hle : n ≤ m) :
    UInt8.ofNat n ≤ UInt8.ofNat m := by
  rw [UInt8.le_iff_toNat_le, UInt8.toNat_ofNat', UInt8.toNat_ofNat']
  omega

/-- The second byte of a sequence lies in the range that its first byte asks for. -/
theorem follows_ofNat {x y : Nat} (hx : x < 256) (hlow : 0x80 ≤ y) (hhigh : y ≤ 0xBF)
    (hE0 : x = 0xE0 → 0xA0 ≤ y) (hED : x = 0xED → y ≤ 0x9F) (hF0 : x = 0xF0 → 0x90 ≤ y)
    (hF4 : x = 0xF4 → y ≤ 0x8F) : follows (UInt8.ofNat x) (UInt8.ofNat y) = true := by
  have hy : y < 256 := by omega
  have hrange {lo hi : Nat} (hhi : hi < 256) (hlo : lo ≤ y) (hle : y ≤ hi) :
      (decide (UInt8.ofNat lo ≤ UInt8.ofNat y) &&
        decide (UInt8.ofNat y ≤ UInt8.ofNat hi)) = true := by
    simp [ofNat_le_ofNat hy hlo, ofNat_le_ofNat hhi hle]
  unfold follows secondBytes
  split
  · rename_i hbeq
    exact hrange (by decide) (hE0 (eq_of_ofNat_beq hx hbeq)) hhigh
  · split
    · rename_i hbeq
      exact hrange (by decide) hlow (hED (eq_of_ofNat_beq hx hbeq))
    · split
      · rename_i hbeq
        exact hrange (by decide) (hF0 (eq_of_ofNat_beq hx hbeq)) hhigh
      · split
        · rename_i hbeq
          exact hrange (by decide) hlow (hF4 (eq_of_ofNat_beq hx hbeq))
        · exact hrange (by decide) hlow hhigh

theorem isContinuation_ofNat {n : Nat} (hlow : 0x80 ≤ n) (hhigh : n ≤ 0xBF) :
    isContinuation (UInt8.ofNat n) = true := by
  have hfrom : (0x80 : UInt8) ≤ UInt8.ofNat n := ofNat_le_ofNat (n := 0x80) (by omega) hlow
  have hto : UInt8.ofNat n ≤ 0xBF := ofNat_le_ofNat (m := 0xBF) (by decide) hhigh
  simp [isContinuation, hfrom, hto]

theorem ofNat_lt_iff {n m : Nat} (hn : n < 256) (hm : m < 256) :
    UInt8.ofNat n < UInt8.ofNat m ↔ n < m := by
  rw [UInt8.lt_iff_toNat_lt, UInt8.toNat_ofNat', UInt8.toNat_ofNat']
  omega

/-! ### Sequences by their length -/

theorem low_ofNat (n : Nat) : low (UInt8.ofNat n) = n % 64 := by
  rw [low, UInt8.toNat_ofNat']
  omega

theorem next_one {x : Nat} (hx : x < 0x80) (rest : List UInt8) :
    next (UInt8.ofNat x) rest = (some (Char.ofNat x), rest) := by
  have hascii : UInt8.ofNat x < 0x80 := (ofNat_lt_iff (m := 0x80) (by omega) (by decide)).mpr hx
  have htoNat : (UInt8.ofNat x).toNat = x := by
    rw [UInt8.toNat_ofNat']
    omega
  unfold next
  rw [if_pos hascii, htoNat]

theorem lead_tests {x : Nat} (hlow : 0xC2 ≤ x) (hhigh : x ≤ 0xF4) :
    ¬ UInt8.ofNat x < 0x80 ∧ ¬ UInt8.ofNat x < 0xC2 ∧ ¬ UInt8.ofNat x > 0xF4 ∧
      (UInt8.ofNat x < 0xE0 ↔ x < 0xE0) ∧ (UInt8.ofNat x < 0xF0 ↔ x < 0xF0) ∧
      (UInt8.ofNat x).toNat = x := by
  have hlt {m : Nat} (hm : m < 256) : UInt8.ofNat x < UInt8.ofNat m ↔ x < m :=
    ofNat_lt_iff (by omega) hm
  have hgt {m : Nat} (hm : m < 256) : UInt8.ofNat m < UInt8.ofNat x ↔ m < x :=
    ofNat_lt_iff hm (by omega)
  refine ⟨?_, ?_, ?_, hlt (m := 0xE0) (by decide), hlt (m := 0xF0) (by decide), ?_⟩
  · intro hless
    have hx := (hlt (m := 0x80) (by decide)).mp hless
    omega
  · intro hless
    have hx := (hlt (m := 0xC2) (by decide)).mp hless
    omega
  · intro hmore
    have hx := (hgt (m := 0xF4) (by decide)).mp hmore
    omega
  · rw [UInt8.toNat_ofNat']
    omega

theorem next_two {x y : Nat} (hlow : 0xC2 ≤ x) (hhigh : x < 0xE0) (hylow : 0x80 ≤ y)
    (hyhigh : y ≤ 0xBF) (rest : List UInt8) :
    next (UInt8.ofNat x) (UInt8.ofNat y :: rest) =
      (some (Char.ofNat (x % 32 * 64 + y % 64)), rest) := by
  have hfollows : follows (UInt8.ofNat x) (UInt8.ofNat y) = true :=
    follows_ofNat (by omega) hylow hyhigh (by omega) (by omega) (by omega) (by omega)
  obtain ⟨hascii, hlead, hlast, htwo, -, hvalue⟩ := lead_tests hlow (by omega)
  simp only [next, hascii, hlead, hlast, hfollows, htwo, hhigh, hvalue, low_ofNat, ↓reduceIte,
    decide_false, Bool.or_self, Bool.not_true, Bool.false_eq_true]

theorem next_three {x y z : Nat} (hlow : 0xE0 ≤ x) (hhigh : x < 0xF0) (hylow : 0x80 ≤ y)
    (hyhigh : y ≤ 0xBF) (hE0 : x = 0xE0 → 0xA0 ≤ y) (hED : x = 0xED → y ≤ 0x9F)
    (hzlow : 0x80 ≤ z) (hzhigh : z ≤ 0xBF) (rest : List UInt8) :
    next (UInt8.ofNat x) (UInt8.ofNat y :: UInt8.ofNat z :: rest) =
      (some (Char.ofNat ((x % 16 * 64 + y % 64) * 64 + z % 64)), rest) := by
  have hfollows : follows (UInt8.ofNat x) (UInt8.ofNat y) = true :=
    follows_ofNat (by omega) hylow hyhigh hE0 hED (by omega) (by omega)
  have hmore : ¬ x < 0xE0 := by omega
  obtain ⟨hascii, hlead, hlast, htwo, hthree, hvalue⟩ := lead_tests (by omega) (by omega : x ≤ 0xF4)
  simp only [next, hascii, hlead, hlast, hfollows, isContinuation_ofNat hzlow hzhigh, htwo,
    hthree, hmore, hhigh, hvalue, low_ofNat, ↓reduceIte, decide_false, Bool.or_self,
    Bool.not_true, Bool.false_eq_true]

theorem next_four {x y z w : Nat} (hlow : 0xF0 ≤ x) (hhigh : x ≤ 0xF4) (hylow : 0x80 ≤ y)
    (hyhigh : y ≤ 0xBF) (hF0 : x = 0xF0 → 0x90 ≤ y) (hF4 : x = 0xF4 → y ≤ 0x8F)
    (hzlow : 0x80 ≤ z) (hzhigh : z ≤ 0xBF) (hwlow : 0x80 ≤ w) (hwhigh : w ≤ 0xBF)
    (rest : List UInt8) :
    next (UInt8.ofNat x) (UInt8.ofNat y :: UInt8.ofNat z :: UInt8.ofNat w :: rest) =
      (some (Char.ofNat (((x % 8 * 64 + y % 64) * 64 + z % 64) * 64 + w % 64)), rest) := by
  have hfollows : follows (UInt8.ofNat x) (UInt8.ofNat y) = true :=
    follows_ofNat (by omega) hylow hyhigh (by omega) (by omega) hF0 hF4
  have hmore : ¬ x < 0xE0 := by omega
  have hmost : ¬ x < 0xF0 := by omega
  obtain ⟨hascii, hlead, hlast, htwo, hthree, hvalue⟩ := lead_tests (by omega) hhigh
  simp only [next, hascii, hlead, hlast, hfollows, isContinuation_ofNat hzlow hzhigh,
    isContinuation_ofNat hwlow hwhigh, htwo, hthree, hmore, hmost, hvalue, low_ofNat, ↓reduceIte,
    decide_false, Bool.or_self, Bool.not_true, Bool.false_eq_true]

theorem next_utf8EncodeChar (c : Char) (rest : List UInt8) :
    ∃ b bs, String.utf8EncodeChar c = b :: bs ∧ next b (bs ++ rest) = (some c, rest) := by
  have hvalid : c.val.toNat < 0xD800 ∨ 0xDFFF < c.val.toNat ∧ c.val.toNat < 0x110000 := c.valid
  have hchar : Char.ofNat c.val.toNat = c := Char.ofNat_toNat c
  unfold String.utf8EncodeChar
  generalize c.val.toNat = v at hvalid hchar
  simp only
  split
  · refine ⟨_, _, rfl, ?_⟩
    rw [List.nil_append, next_one (by omega), hchar]
  · split
    · refine ⟨_, _, rfl, ?_⟩
      have hvalue : (v / 64 % 32 + 0xC0) % 32 * 64 + (v % 64 + 0x80) % 64 = v := by omega
      rw [List.cons_append, List.nil_append,
        next_two (by omega) (by omega) (by omega) (by omega), hvalue, hchar]
    · split
      · refine ⟨_, _, rfl, ?_⟩
        have hvalue : ((v / 4096 % 16 + 0xE0) % 16 * 64 + (v / 64 % 64 + 0x80) % 64) * 64 +
            (v % 64 + 0x80) % 64 = v := by omega
        rw [List.cons_append, List.cons_append, List.nil_append,
          next_three (by omega) (by omega) (by omega) (by omega) (by omega) (by omega)
            (by omega) (by omega), hvalue, hchar]
      · refine ⟨_, _, rfl, ?_⟩
        have hvalue : (((v / 262144 % 8 + 0xF0) % 8 * 64 + (v / 4096 % 64 + 0x80) % 64) * 64 +
            (v / 64 % 64 + 0x80) % 64) * 64 + (v % 64 + 0x80) % 64 = v := by omega
        rw [List.cons_append, List.cons_append, List.cons_append, List.nil_append,
          next_four (by omega) (by omega) (by omega) (by omega) (by omega) (by omega)
            (by omega) (by omega) (by omega) (by omega), hvalue, hchar]

/-! ### Bytes of characters -/

theorem utf8EncodeChar_of_lt {c : Char} (hascii : c.toNat < 0x80) :
    String.utf8EncodeChar c = [UInt8.ofNat c.toNat] := by
  have hone : c.val.toNat ≤ 127 := Nat.le_of_lt_succ hascii
  unfold String.utf8EncodeChar
  simp only [if_pos hone]
  rfl

theorem toNat_ofNat_of_lt {b : UInt8} (hb : b < 0x80) : (Char.ofNat b.toNat).toNat = b.toNat := by
  have hascii : b.toNat < 0x80 := UInt8.lt_iff_toNat_lt.mp hb
  rw [Char.ofNat, dif_pos (Or.inl (by omega))]
  rfl

theorem utf8EncodeChar_ofNat {b : UInt8} (hb : b < 0x80) :
    String.utf8EncodeChar (Char.ofNat b.toNat) = [b] := by
  have hascii : b.toNat < 0x80 := UInt8.lt_iff_toNat_lt.mp hb
  rw [← toNat_ofNat_of_lt hb] at hascii
  rw [utf8EncodeChar_of_lt hascii, toNat_ofNat_of_lt hb, UInt8.ofNat_toNat]

/-- The bytes of a character beyond ASCII lie beyond ASCII. -/
theorem le_of_mem_utf8EncodeChar {c : Char} (hlong : 0x80 ≤ c.toNat) {b : UInt8}
    (hmem : b ∈ String.utf8EncodeChar c) : 0x80 ≤ b := by
  have hvalid : c.val.toNat < 0xD800 ∨ 0xDFFF < c.val.toNat ∧ c.val.toNat < 0x110000 := c.valid
  have hmore : ¬ c.val.toNat ≤ 127 := Nat.not_le_of_lt hlong
  have hfrom {n : Nat} (hlow : 0x80 ≤ n) (hhigh : n < 256) : (0x80 : UInt8) ≤ UInt8.ofNat n :=
    ofNat_le_ofNat (n := 0x80) hhigh hlow
  unfold String.utf8EncodeChar at hmem
  simp only [if_neg hmore] at hmem
  split at hmem
  · simp only [List.mem_cons, List.not_mem_nil, or_false] at hmem
    rcases hmem with rfl | rfl <;> exact hfrom (by omega) (by omega)
  · split at hmem <;> simp only [List.mem_cons, List.not_mem_nil, or_false] at hmem
    · rcases hmem with rfl | rfl | rfl <;> exact hfrom (by omega) (by omega)
    · rcases hmem with rfl | rfl | rfl | rfl <;> exact hfrom (by omega) (by omega)

theorem utf8EncodeChar_of_mem_of_lt {c : Char} {b : UInt8} (hb : b < 0x80)
    (hmem : b ∈ String.utf8EncodeChar c) :
    String.utf8EncodeChar c = [b] ∧ b.toNat = c.toNat := by
  by_cases hascii : c.toNat < 0x80
  · rw [utf8EncodeChar_of_lt hascii] at hmem ⊢
    obtain rfl := List.mem_singleton.mp hmem
    refine ⟨rfl, ?_⟩
    rw [UInt8.toNat_ofNat']
    omega
  · have hlong := le_of_mem_utf8EncodeChar (Nat.le_of_not_lt hascii) hmem
    exact absurd hb (UInt8.not_lt.mpr hlong)

/-! ### Texts -/

theorem encode_cons (c : Char) (cs : List Char) :
    encode (c :: cs) = String.utf8EncodeChar c ++ encode cs := by
  rw [encode, List.flatMap_cons, encode]

theorem encode_map_ofNat {bs : List UInt8} (hascii : ∀ b ∈ bs, b < 0x80) :
    encode (bs.map fun b => Char.ofNat b.toNat) = bs := by
  induction bs with
  | nil => rfl
  | cons b bs ih =>
      rw [List.forall_mem_cons] at hascii
      rw [List.map_cons, encode_cons, utf8EncodeChar_ofNat hascii.1, ih hascii.2]
      rfl

theorem encode_append (cs ds : List Char) : encode (cs ++ ds) = encode cs ++ encode ds := by
  simp [encode]

theorem decode?_encode (cs : List Char) : decode? (encode cs) = some cs := by
  induction cs with
  | nil => simp [encode, decode?]
  | cons c cs ih =>
      obtain ⟨b, bs, hbytes, hnext⟩ := next_utf8EncodeChar c (encode cs)
      have hencode : encode (c :: cs) = b :: (bs ++ encode cs) := by
        simp [encode, hbytes]
      rw [hencode, decode?, hnext]
      simp [ih]

theorem decodeLossy_encode (cs : List Char) : decodeLossy (encode cs) = cs := by
  induction cs with
  | nil => simp [encode, decodeLossy]
  | cons c cs ih =>
      obtain ⟨b, bs, hbytes, hnext⟩ := next_utf8EncodeChar c (encode cs)
      have hencode : encode (c :: cs) = b :: (bs ++ encode cs) := by
        simp [encode, hbytes]
      rw [hencode, decodeLossy, hnext]
      simp [ih]

end GrpcContract.Text.Utf8
