import GrpcContract.Message.OfJson
import GrpcContract.Proofs.Base64
import GrpcContract.Proofs.MessageTypes
import GrpcContract.Proofs.TreeText

/-!
# Scalars and map keys from JSON

A scalar is read from what its leaf is written as, and a map key from the text of its leaf.
-/

namespace GrpcContract

open Json

/-! ### Integers -/

theorem toSigned?_int (bits : Nat) {n : Int} (hlow : -(Nat.pow 2 (bits - 1) : Int) ≤ n)
    (hhigh : n < Nat.pow 2 (bits - 1)) : toSigned? bits (.number (.int n)) = some n := by
  have hle : n ≤ (Nat.pow 2 (bits - 1) : Int) - 1 := by omega
  simp only [toSigned?, toIntIn?, hlow, hle, and_self, ↓reduceIte]

theorem toSigned?_text (bits : Nat) {n : Int} (hlow : -(Nat.pow 2 (bits - 1) : Int) ≤ n)
    (hhigh : n < Nat.pow 2 (bits - 1)) : toSigned? bits (.string (toString n)) = some n := by
  have hle : n ≤ (Nat.pow 2 (bits - 1) : Int) - 1 := by omega
  simp only [toSigned?, toIntIn?, Text.readInt?_toString, Option.filter_some, hlow, hle, and_self,
    decide_true, ↓reduceIte]

theorem toUnsigned?_int (bits : Nat) {n : Nat} (hhigh : n < Nat.pow 2 bits) :
    toUnsigned? bits (.number (.int n)) = some n := by
  have hle : (n : Int) ≤ (Nat.pow 2 bits : Int) - 1 := by omega
  have hlow : (0 : Int) ≤ n := Int.natCast_nonneg n
  simp only [toUnsigned?, toIntIn?, hlow, hle, and_self, ↓reduceIte, Option.map_some,
    Int.toNat_natCast]

theorem toUnsigned?_text (bits : Nat) {n : Nat} (hhigh : n < Nat.pow 2 bits) :
    toUnsigned? bits (.string (toString n)) = some n := by
  have hle : (n : Int) ≤ (Nat.pow 2 bits : Int) - 1 := by omega
  simp only [toUnsigned?, toIntIn?, Text.readNat?_toString, Option.map_some, Option.filter_some,
    Int.ofNat_eq_natCast, Int.natCast_nonneg, hle, and_self, decide_true, ↓reduceIte,
    Int.toNat_natCast]

/-! ### Scalars -/

theorem ScalarKind.ofJson?_written {kind : ScalarKind} {x : Scalar}
    (hadmits : kind.admits x = true) (hback : (Leaf.scalar x).readsBack = true) :
    kind.ofJson? (Leaf.scalar x).written = some x := by
  cases x with
  | enum n => cases kind <;> exact absurd hadmits (by simp [ScalarKind.admits])
  | float x =>
      cases kind with
      | float => simp [ofJson?, Leaf.toFloat?_written hback]
      | _ => exact absurd hadmits (by simp [ScalarKind.admits])
  | double x =>
      cases kind with
      | double => simp [ofJson?, Leaf.toDouble?_written hback]
      | _ => exact absurd hadmits (by simp [ScalarKind.admits])
  | bool b =>
      rw [Leaf.written_eq_toJson rfl]
      cases kind with
      | bool => rfl
      | _ => exact absurd hadmits (by simp [ScalarKind.admits])
  | string s =>
      rw [Leaf.written_eq_toJson rfl]
      cases kind with
      | string => rfl
      | _ => exact absurd hadmits (by simp [ScalarKind.admits])
  | bytes bs =>
      rw [Leaf.written_eq_toJson rfl]
      cases kind with
      | bytes =>
          simp [ofJson?, Leaf.toJson, Json.toBytes?, Text.Base64.decode?_encode]
      | _ => exact absurd hadmits (by simp [ScalarKind.admits])
  | int32 n =>
      rw [Leaf.written_eq_toJson rfl]
      have hread : toSigned? 32 (.number (.int n.toInt)) = some n.toInt :=
        toSigned?_int 32 n.le_toInt n.toInt_lt
      cases kind with
      | int32 | sint32 | sfixed32 => simp [ofJson?, Leaf.toJson, hread]
      | _ => exact absurd hadmits (by simp [ScalarKind.admits])
  | int64 n =>
      rw [Leaf.written_eq_toJson rfl]
      have hread : toSigned? 64 (.number (.int n.toInt)) = some n.toInt :=
        toSigned?_int 64 n.le_toInt n.toInt_lt
      cases kind with
      | int64 | sint64 | sfixed64 => simp [ofJson?, Leaf.toJson, hread]
      | _ => exact absurd hadmits (by simp [ScalarKind.admits])
  | uint32 n =>
      rw [Leaf.written_eq_toJson rfl]
      have hread : toUnsigned? 32 (.number (.int n.toNat)) = some n.toNat :=
        toUnsigned?_int 32 n.toNat_lt
      cases kind with
      | uint32 | fixed32 => simp [ofJson?, Leaf.toJson, hread]
      | _ => exact absurd hadmits (by simp [ScalarKind.admits])
  | uint64 n =>
      rw [Leaf.written_eq_toJson rfl]
      have hread : toUnsigned? 64 (.number (.int n.toNat)) = some n.toNat :=
        toUnsigned?_int 64 n.toNat_lt
      cases kind with
      | uint64 | fixed64 => simp [ofJson?, Leaf.toJson, hread]
      | _ => exact absurd hadmits (by simp [ScalarKind.admits])

theorem ScalarKind.keyOfText?_key {kind : ScalarKind} {k : MapKey}
    (hadmits : kind.admits k.toScalar = true) :
    kind.keyOfText? (Leaf.scalar k.toScalar).key = some k := by
  cases k with
  | bool b =>
      cases kind with
      | bool => cases b <;> decide
      | _ => exact absurd hadmits (by simp [ScalarKind.admits, MapKey.toScalar])
  | string s =>
      cases kind with
      | string => rfl
      | _ => exact absurd hadmits (by simp [ScalarKind.admits, MapKey.toScalar])
  | int32 n =>
      have hread : toSigned? 32 (.string (toString n.toInt)) = some n.toInt :=
        toSigned?_text 32 n.le_toInt n.toInt_lt
      cases kind with
      | int32 | sint32 | sfixed32 =>
          simp only [keyOfText?, ofJson?, MapKey.toScalar, Leaf.key, hread, Option.map_some,
            Option.bind_some, Scalar.toMapKey?, Int32.ofInt_toInt]
      | _ => exact absurd hadmits (by simp [ScalarKind.admits, MapKey.toScalar])
  | int64 n =>
      have hread : toSigned? 64 (.string (toString n.toInt)) = some n.toInt :=
        toSigned?_text 64 n.le_toInt n.toInt_lt
      cases kind with
      | int64 | sint64 | sfixed64 =>
          simp only [keyOfText?, ofJson?, MapKey.toScalar, Leaf.key, hread, Option.map_some,
            Option.bind_some, Scalar.toMapKey?, Int64.ofInt_toInt]
      | _ => exact absurd hadmits (by simp [ScalarKind.admits, MapKey.toScalar])
  | uint32 n =>
      have hread : toUnsigned? 32 (.string (toString n.toNat)) = some n.toNat :=
        toUnsigned?_text 32 n.toNat_lt
      cases kind with
      | uint32 | fixed32 =>
          simp only [keyOfText?, ofJson?, MapKey.toScalar, Leaf.key, hread, Option.map_some,
            Option.bind_some, Scalar.toMapKey?, UInt32.ofNat_toNat]
      | _ => exact absurd hadmits (by simp [ScalarKind.admits, MapKey.toScalar])
  | uint64 n =>
      have hread : toUnsigned? 64 (.string (toString n.toNat)) = some n.toNat :=
        toUnsigned?_text 64 n.toNat_lt
      cases kind with
      | uint64 | fixed64 =>
          simp only [keyOfText?, ofJson?, MapKey.toScalar, Leaf.key, hread, Option.map_some,
            Option.bind_some, Scalar.toMapKey?, UInt64.ofNat_toNat]
      | _ => exact absurd hadmits (by simp [ScalarKind.admits, MapKey.toScalar])

/-! ### Enumerations -/

theorem EnumType.numberOf?_of_nameOf? {e : EnumType}
    (hwf : e.values.Pairwise fun v w => v.1 ≠ w.1) {n : Int32} {name : String}
    (hname : e.nameOf? n = some name) : e.numberOf? name = some n := by
  obtain ⟨⟨name', n'⟩, hfind, rfl⟩ := Option.map_eq_some_iff.mp hname
  have hnumber := List.find?_some hfind
  obtain rfl : n' = n := by simpa using hnumber
  have hread := find?_eq_some_of_pairwise hwf (List.mem_of_find?_eq_some hfind)
  simp [EnumType.numberOf?, hread]

theorem EnumType.ofJson_written (o : CodecOptions) {e : EnumType}
    (hwf : e.values.Pairwise fun v w => v.1 ≠ w.1) (n : Int32) :
    e.ofJson o ((FieldType.enum e).leaf (.enum n)).written = .ok (some n) := by
  cases hname : e.nameOf? n with
  | some name =>
      simp [FieldType.leaf, hname, Leaf.written_eq_toJson (show (Leaf.symbol n name).isFiniteFloat =
        false from rfl), Leaf.toJson, EnumType.ofJson, e.numberOf?_of_nameOf? hwf hname]
  | none =>
      have hlow : -0x80000000 ≤ n.toInt := n.le_toInt
      have hhigh : n.toInt < 0x80000000 := n.toInt_lt
      have hplain : (Leaf.scalar (.enum n)).isFiniteFloat = false := rfl
      simp [FieldType.leaf, hname, Leaf.written_eq_toJson hplain, Leaf.toJson, EnumType.ofJson,
        hlow, hhigh]

/-- A scalar of a field's type is read from what its leaf is written as. -/
theorem leafOfJson_written (o : CodecOptions) {type : FieldType} (hwf : type.WellFormed)
    {x : Scalar} (hadmits : type.admits x = true) (hback : (type.leaf x).readsBack = true) :
    leafOfJson o type (type.leaf x).written = .ok (some (.scalar x)) := by
  cases type with
  | scalar kind =>
      have hread := ScalarKind.ofJson?_written hadmits hback
      simp only [leafOfJson, FieldType.leaf] at hread ⊢
      rw [hread]
      rfl
  | enum e =>
      cases x with
      | enum n =>
          simp only [leafOfJson]
          rw [e.ofJson_written o hwf n]
          rfl
      | _ => exact absurd hadmits (by simp [FieldType.admits])
  | message name => exact absurd hadmits (by simp [FieldType.admits])

theorem leafOfJson_null_ne_ok (o : CodecOptions) (type : FieldType) (v? : Option Value) :
    leafOfJson o type .null ≠ .ok v? := by
  cases type with
  | scalar kind => cases kind <;> simp [leafOfJson, ScalarKind.ofJson?, JsonMismatch.orExpected,
      toDouble?, toFloat?, toSigned?, toUnsigned?, toIntIn?, toBool?, Json.toString?, toBytes?,
      Except.map]
  | enum e => simp [leafOfJson, EnumType.ofJson, Except.map]
  | message name => simp [leafOfJson]

/-- Whether a value is readable and holds no other values. -/
def Json.isLeaf : Json → Bool
  | array _ | object _ | unreadable => false
  | _ => true

theorem ScalarKind.isLeaf_of_ofJson? {kind : ScalarKind} {j : Json} {x : Scalar}
    (hread : kind.ofJson? j = some x) : j.isLeaf = true := by
  cases j with
  | array items | object members | unreadable => cases kind <;> cases hread
  | _ => rfl

theorem isLeaf_of_leafOfJson {o : CodecOptions} {type : FieldType} {j : Json} {v? : Option Value}
    (hread : leafOfJson o type j = .ok v?) : j.isLeaf = true := by
  cases type with
  | scalar kind =>
      cases hscalar : kind.ofJson? j with
      | none => simp [leafOfJson, hscalar, JsonMismatch.orExpected, Except.map] at hread
      | some x => exact ScalarKind.isLeaf_of_ofJson? hscalar
  | enum e =>
      cases j with
      | array items | object members | unreadable => cases hread
      | _ => rfl
  | message name => cases hread

end GrpcContract
