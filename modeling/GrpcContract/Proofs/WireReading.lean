import GrpcContract.Message.Wire

/-!
# What a record on the wire does

A record that is read gives a value, or several, to one field on top of what the field has, or is
kept as it is. The cases here are all that there are; what reading keeps follows from them.
-/

namespace GrpcContract

section Record

variable {nested : MergeBytes} {s : Schema} {depth : Nat} {type : FieldType} {w : WireValue}

theorem Value.merge_cases {old? : Option Value} {v : Value}
    (hread : Value.merge nested s type old? w = some v) :
    (∃ name old bs m, type = .message name ∧ (old? = some (.message old) ∨ old = .empty) ∧
        nested (s.messageType name) old bs = some m ∧ v = .message m) ∨
      ∃ x, type.ofWire? w = some x ∧ v = .scalar x := by
  cases type with
  | message name =>
      cases w with
      | bytes bs =>
          obtain ⟨m, hm, rfl⟩ := Option.map_eq_some_iff.mp hread
          refine .inl ⟨name, _, bs, m, rfl, ?_, hm, rfl⟩
          split
          · exact .inl rfl
          · exact .inr rfl
      | _ => cases hread
  | _ =>
      obtain ⟨x, hx, rfl⟩ := Option.map_eq_some_iff.mp hread
      exact .inr ⟨x, hx, rfl⟩

theorem FieldType.readItems_cases {vs : List Value} (hread : type.readItems nested s w = some vs) :
    (∃ v, Value.merge nested s type none w = some v ∧ vs = [v]) ∨
      ∃ bs xs, type.readPacked bs.length bs = some xs ∧ vs = xs.map .scalar := by
  have hone (hread : (Value.merge nested s type none w).map ([·]) = some vs) :
      ∃ v, Value.merge nested s type none w = some v ∧ vs = [v] := by
    obtain ⟨v, hv, rfl⟩ := Option.map_eq_some_iff.mp hread
    exact ⟨v, hv, rfl⟩
  cases w with
  | bytes bs =>
      simp only [readItems] at hread
      split at hread
      · exact .inl (hone hread)
      · obtain ⟨xs, hxs, rfl⟩ := Option.map_eq_some_iff.mp hread
        exact .inr ⟨bs, xs, hxs, rfl⟩
  | _ => exact .inl (hone hread)

/-- What holds of the default entry and of each part that is read holds of the entry. -/
theorem readEntry_keeps {kind : ScalarKind} {P : Scalar → Prop} {Q : Value → Prop}
    (hkeys : ∀ w x, kind.ofWire? w = some x → P x)
    (hvalues : ∀ old w v, Q old → Value.merge nested s type (some old) w = some v → Q v)
    {records : List (Nat × WireValue)} {key key' : Scalar} {value value' : Value}
    (hkey : P key) (hvalue : Q value)
    (hread : readEntry nested s depth kind type key value records = some (key', value')) :
    P key' ∧ Q value' := by
  induction records generalizing key value with
  | nil =>
      cases hread
      exact ⟨hkey, hvalue⟩
  | cons record records ih =>
      obtain ⟨n, w⟩ := record
      unfold readEntry at hread
      split at hread
      · rename_i heq
        cases heq
      · rename_i heq
        cases heq
        obtain ⟨x, hx, hrest⟩ := Option.bind_eq_some_iff.mp hread
        exact ih (hkeys _ x hx) hvalue hrest
      · rename_i heq
        cases heq
        obtain ⟨v, hv, hrest⟩ := Option.bind_eq_some_iff.mp hread
        exact ih hkey (hvalues _ _ v hvalue hv) hrest
      · rename_i heq
        cases heq
        split at hread
        · exact ih hkey hvalue hread
        · cases hread

/-- What a record gives to a field of some shape, on top of what the field has. -/
inductive Shape.Merges (nested : MergeBytes) (s : Schema) (depth : Nat)
    (old? : Option FieldValue) (w : WireValue) : Shape → FieldValue → Prop
  | single {type : FieldType} {presence : Presence} {default? : Option Scalar}
    {oldValue? : Option Value} {v : Value}
    (hold : ∀ u, oldValue? = some u → old? = some (.single u))
    (hread : Value.merge nested s type oldValue? w = some v) :
    Merges nested s depth old? w (.single type presence default?) (.single v)
  | repeated {type : FieldType} {packed : Bool} {old vs : List Value}
    (hold : old? = some (.list old) ∨ old = []) (hread : type.readItems nested s w = some vs) :
    Merges nested s depth old? w (.repeated type packed) (.list (old ++ vs))
  | map {kind : ScalarKind} {type : FieldType} {old : List (MapKey × Value)}
    {records : List (Nat × WireValue)} {key : Scalar} {k : MapKey} {value : Value}
    (hold : old? = some (.map old) ∨ old = [])
    (hread : readEntry nested s depth kind type kind.zero type.entryDefault records =
      some (key, value))
    (hkey : key.toMapKey? = some k) :
    Merges nested s depth old? w (.map kind type) (.map (insertEntry k value old))

theorem Field.merges_of_merge {f : Field} {old? : Option FieldValue} {v : FieldValue}
    (hread : f.merge nested s depth old? w = some v) :
    f.shape.Merges nested s depth old? w v := by
  unfold merge at hread
  split at hread
  · rename_i type presence default? hshape
    obtain ⟨x, hx, rfl⟩ := Option.map_eq_some_iff.mp hread
    rw [hshape]
    refine .single ?_ hx
    intro u hu
    split at hu
    · exact congrArg _ (congrArg _ (Option.some.inj hu))
    · cases hu
  · rename_i type packed hshape
    obtain ⟨vs, hvs, hjoined⟩ := Option.bind_eq_some_iff.mp hread
    obtain rfl := Option.some.inj hjoined
    rw [hshape]
    refine .repeated ?_ hvs
    split
    · exact .inl rfl
    · exact .inr rfl
  · rename_i kind type hshape
    cases w with
    | bytes bs =>
        obtain ⟨records, -, hentry⟩ := Option.bind_eq_some_iff.mp hread
        obtain ⟨⟨key, value⟩, hpair, hkeyed⟩ := Option.bind_eq_some_iff.mp hentry
        obtain ⟨k, hk, hset⟩ := Option.bind_eq_some_iff.mp hkeyed
        obtain rfl := Option.some.inj hset
        rw [hshape]
        refine .map ?_ hpair hk
        split
        · exact .inl rfl
        · exact .inr rfl
    | _ => cases hread

theorem Message.mergeRecord_cases {t : MessageType} {m m' : Message} {record : Nat × WireValue}
    (hread : m.mergeRecord nested s depth t record = some m') :
    m' = m.addUnknown record.1 record.2 ∨
      ∃ f v, f ∈ t.fields ∧ f.shape.Merges nested s depth (m.get? f.number) record.2 v ∧
        m' = m.set t f v := by
  unfold mergeRecord at hread
  split at hread
  · exact .inl (Option.some.inj hread).symm
  · rename_i f hfield
    obtain ⟨v, hv, rfl⟩ := Option.map_eq_some_iff.mp hread
    exact .inr ⟨f, v, List.mem_of_find?_eq_some hfield, f.merges_of_merge hv, rfl⟩

end Record

/-- What each record keeps holds of a message that is read. -/
theorem Message.mergeBytes_keeps {s : Schema} {levels : Nat} {t : MessageType}
    {P : Message → Prop}
    (hrecord : ∀ m record m', P m →
      m.mergeRecord (mergeBytes s levels) s levels t record = some m' → P m')
    {m m' : Message} (hm : P m) {bs : List UInt8}
    (hread : mergeBytes s (levels + 1) t m bs = some m') : P m' := by
  obtain ⟨records, -, hfold⟩ := Option.bind_eq_some_iff.mp hread
  clear hread
  induction records generalizing m with
  | nil =>
      obtain rfl := Option.some.inj hfold
      exact hm
  | cons record records ih =>
      obtain ⟨next, hnext, hrest⟩ := Option.bind_eq_some_iff.mp hfold
      exact ih (hrecord m record next hm hnext) hrest

end GrpcContract
