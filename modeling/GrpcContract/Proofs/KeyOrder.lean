import GrpcContract.Proofs.SpelledOut
import Mathlib.Data.String.Basic
import Mathlib.Data.Sum.Order

/-!
# The order of map keys

The keys of one map are of one kind. Among these `Leaf.keyLe` is a linear order, that of the
numbers or of the strings that the keys are; among keys of several kinds it would not be.
-/

namespace GrpcContract

/-- The place of a key among all keys: numbers by value, and strings after them. -/
def MapKey.rank : MapKey → Int ⊕ₗ String
  | bool b => toLex (.inl b.toInt)
  | int32 n => toLex (.inl n.toInt)
  | int64 n => toLex (.inl n.toInt)
  | uint32 n => toLex (.inl n.toNat)
  | uint64 n => toLex (.inl n.toNat)
  | string s => toLex (.inr s)

def rankLe (a b : MapKey × Value) : Bool :=
  a.1.rank ≤ b.1.rank

/-- Two keys of one kind have the same constructor. -/
theorem MapKey.pair_cases {kind : ScalarKind} {motive : MapKey → MapKey → Prop} {j k : MapKey}
    (hj : kind.admits j.toScalar = true) (hk : kind.admits k.toScalar = true)
    (hbool : ∀ x y, motive (.bool x) (.bool y)) (hint32 : ∀ x y, motive (.int32 x) (.int32 y))
    (hint64 : ∀ x y, motive (.int64 x) (.int64 y)) (huint32 : ∀ x y, motive (.uint32 x) (.uint32 y))
    (huint64 : ∀ x y, motive (.uint64 x) (.uint64 y))
    (hstring : ∀ x y, motive (.string x) (.string y)) : motive j k := by
  cases j with
  | bool x =>
      cases k with
      | bool y => exact hbool x y
      | _ => cases kind <;> simp [ScalarKind.admits, toScalar] at hj hk
  | int32 x =>
      cases k with
      | int32 y => exact hint32 x y
      | _ => cases kind <;> simp [ScalarKind.admits, toScalar] at hj hk
  | int64 x =>
      cases k with
      | int64 y => exact hint64 x y
      | _ => cases kind <;> simp [ScalarKind.admits, toScalar] at hj hk
  | uint32 x =>
      cases k with
      | uint32 y => exact huint32 x y
      | _ => cases kind <;> simp [ScalarKind.admits, toScalar] at hj hk
  | uint64 x =>
      cases k with
      | uint64 y => exact huint64 x y
      | _ => cases kind <;> simp [ScalarKind.admits, toScalar] at hj hk
  | string x =>
      cases k with
      | string y => exact hstring x y
      | _ => cases kind <;> simp [ScalarKind.admits, toScalar] at hj hk

theorem MapKey.keyLe_eq_rank_le {kind : ScalarKind} {j k : MapKey}
    (hj : kind.admits j.toScalar = true) (hk : kind.admits k.toScalar = true) :
    (Leaf.scalar j.toScalar).keyLe (.scalar k.toScalar) = decide (j.rank ≤ k.rank) := by
  apply pair_cases hj hk
  · intro x y
    cases x <;> cases y <;> rfl
  · intro x y
    simp [Leaf.keyLe, toScalar, rank, Int32.le_iff_toInt_le]
  · intro x y
    simp [Leaf.keyLe, toScalar, rank, Int64.le_iff_toInt_le]
  · intro x y
    simp [Leaf.keyLe, toScalar, rank, UInt32.le_iff_toNat_le]
  · intro x y
    simp [Leaf.keyLe, toScalar, rank, UInt64.le_iff_toNat_le]
  · intro x y
    simp [Leaf.keyLe, toScalar, rank]

theorem entryLe_eq_rankLe {kind : ScalarKind} {a b : MapKey × Value}
    (ha : kind.admits a.1.toScalar = true) (hb : kind.admits b.1.toScalar = true) :
    entryLe a b = rankLe a b :=
  MapKey.keyLe_eq_rank_le ha hb

theorem pairwise_mergeSort_rankLe (entries : List (MapKey × Value)) :
    (entries.mergeSort rankLe).Pairwise fun a b => rankLe a b = true := by
  apply List.pairwise_mergeSort
  · intro a b c hab hbc
    simp only [rankLe, decide_eq_true_eq] at hab hbc ⊢
    exact hab.trans hbc
  · intro a b
    simpa [rankLe] using le_total a.1.rank b.1.rank

/-- Entries whose keys are of one kind are in the order of their keys once they are sorted. -/
theorem pairwise_mergeSort_entryLe {kind : ScalarKind} {entries : List (MapKey × Value)}
    (hadmits : ∀ e ∈ entries, kind.admits e.1.toScalar = true) :
    (entries.mergeSort entryLe).Pairwise fun a b => entryLe a b = true := by
  have hrank : entries.mergeSort entryLe = entries.mergeSort rankLe := by
    simpa using List.map_mergeSort (f := id) fun a ha b hb =>
      entryLe_eq_rankLe (hadmits a ha) (hadmits b hb)
  have hmem (e : MapKey × Value) (he : e ∈ entries.mergeSort rankLe) :
      kind.admits e.1.toScalar = true :=
    hadmits e ((List.mergeSort_perm entries rankLe).mem_iff.mp he)
  rw [hrank]
  refine (pairwise_mergeSort_rankLe entries).imp_of_mem fun {a b} ha hb hle => ?_
  rw [entryLe_eq_rankLe (hmem a ha) (hmem b hb)]
  exact hle

/-- Sorting the entries of a map once more changes nothing. -/
theorem mergeSort_mergeSort_entryLe {kind : ScalarKind} {entries : List (MapKey × Value)}
    (hadmits : ∀ e ∈ entries, kind.admits e.1.toScalar = true) :
    (entries.mergeSort entryLe).mergeSort entryLe = entries.mergeSort entryLe :=
  List.mergeSort_of_pairwise (pairwise_mergeSort_entryLe hadmits)

end GrpcContract
