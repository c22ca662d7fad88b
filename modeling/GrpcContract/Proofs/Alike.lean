import GrpcContract.Proofs.MessageTypes
import Mathlib.Data.List.Forall2

/-!
# Messages up to the order of map entries

The entries of a map have no order of their own. Two messages are alike if they differ in nothing
but the order in which the entries of maps are stored, at any depth.
-/

namespace GrpcContract

mutual
inductive Value.Alike : Value → Value → Prop
  | scalar (x : Scalar) : Value.Alike (.scalar x) (.scalar x)
  | message {m k : Message} (hmessage : Message.Alike m k) : Value.Alike (.message m) (.message k)

inductive FieldValue.Alike : FieldValue → FieldValue → Prop
  | single {v w : Value} (hvalue : Value.Alike v w) : FieldValue.Alike (.single v) (.single w)
  | list {vs ws : List Value} (hvalues : ValuesAlike vs ws) : FieldValue.Alike (.list vs) (.list ws)
  | map {entries ordered stored : List (MapKey × Value)} (hentries : EntriesAlike entries ordered)
      (hperm : ordered.Perm stored) : FieldValue.Alike (.map entries) (.map stored)

/-- Whether two messages differ at most in the order of the entries of their maps, here and in every
message inside. -/
inductive Message.Alike : Message → Message → Prop
  | mk {fields fields' : List (Nat × FieldValue)} (unknown : List (Nat × WireValue))
      (hfields : FieldsAlike fields fields') :
      Message.Alike (.mk fields unknown) (.mk fields' unknown)

inductive ValuesAlike : List Value → List Value → Prop
  | nil : ValuesAlike [] []
  | cons {v w : Value} {vs ws : List Value} (hhead : Value.Alike v w) (htail : ValuesAlike vs ws) :
      ValuesAlike (v :: vs) (w :: ws)

inductive EntriesAlike : List (MapKey × Value) → List (MapKey × Value) → Prop
  | nil : EntriesAlike [] []
  | cons {k : MapKey} {v w : Value} {entries entries' : List (MapKey × Value)}
      (hhead : Value.Alike v w) (htail : EntriesAlike entries entries') :
      EntriesAlike ((k, v) :: entries) ((k, w) :: entries')

inductive FieldsAlike : List (Nat × FieldValue) → List (Nat × FieldValue) → Prop
  | nil : FieldsAlike [] []
  | cons {n : Nat} {v w : FieldValue} {fields fields' : List (Nat × FieldValue)}
      (hhead : FieldValue.Alike v w) (htail : FieldsAlike fields fields') :
      FieldsAlike ((n, v) :: fields) ((n, w) :: fields')
end

mutual
theorem Value.Alike.refl : ∀ v : Value, v.Alike v
  | .scalar x => .scalar x
  | .message m => .message (Message.Alike.refl m)

theorem FieldValue.Alike.refl : ∀ v : FieldValue, v.Alike v
  | .single v => .single (Value.Alike.refl v)
  | .list vs => .list (ValuesAlike.refl vs)
  | .map entries => .map (EntriesAlike.refl entries) (.refl entries)

theorem Message.Alike.refl : ∀ m : Message, m.Alike m
  | .mk fields unknown => .mk unknown (FieldsAlike.refl fields)

theorem ValuesAlike.refl : ∀ vs : List Value, ValuesAlike vs vs
  | [] => .nil
  | v :: vs => .cons (Value.Alike.refl v) (ValuesAlike.refl vs)

theorem EntriesAlike.refl : ∀ entries : List (MapKey × Value), EntriesAlike entries entries
  | [] => .nil
  | (_, v) :: entries => .cons (Value.Alike.refl v) (EntriesAlike.refl entries)

theorem FieldsAlike.refl : ∀ fields : List (Nat × FieldValue), FieldsAlike fields fields
  | [] => .nil
  | (_, v) :: fields => .cons (FieldValue.Alike.refl v) (FieldsAlike.refl fields)
end

theorem FieldsAlike.lookup {fields fields' : List (Nat × FieldValue)}
    (hfields : FieldsAlike fields fields') {n : Nat} {v : FieldValue}
    (hv : fields.lookup n = some v) : ∃ w, fields'.lookup n = some w ∧ v.Alike w := by
  induction fields generalizing fields' with
  | nil => cases hv
  | cons field fields ih =>
      obtain ⟨⟩ | ⟨hhead, htail⟩ := hfields
      rw [lookup_cons_ite] at hv ⊢
      split at hv
      · obtain rfl := Option.some.inj hv
        rename_i hn
        exact ⟨_, if_pos hn, hhead⟩
      · rename_i hn
        rw [if_neg hn]
        exact ih htail hv

theorem Message.Alike.get? {m k : Message} (halike : m.Alike k) {n : Nat} {v : FieldValue}
    (hv : m.get? n = some v) : ∃ w, k.get? n = some w ∧ v.Alike w := by
  obtain ⟨_, hfields⟩ := halike
  exact hfields.lookup hv

/-- Setting a field to values that are alike keeps fields alike. -/
theorem FieldsAlike.insertNumbered {n : Nat} {v w : FieldValue} (hvalue : v.Alike w)
    {fields fields' : List (Nat × FieldValue)} (hfields : FieldsAlike fields fields') :
    FieldsAlike (insertNumbered n v fields) (insertNumbered n w fields') := by
  induction fields generalizing fields' with
  | nil =>
      cases hfields
      exact .cons hvalue .nil
  | cons field fields ih =>
      obtain ⟨⟩ | ⟨hhead, htail⟩ := hfields
      unfold GrpcContract.insertNumbered
      split
      · exact .cons hvalue (.cons hhead htail)
      · split
        · exact .cons hvalue htail
        · exact .cons hhead (ih htail)

end GrpcContract
