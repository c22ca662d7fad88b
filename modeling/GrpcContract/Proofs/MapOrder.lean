import GrpcContract.Codec
import GrpcContract.Proofs.Alike
import GrpcContract.Proofs.ByteOrder
import GrpcContract.Proofs.SpelledTrees
import GrpcContract.Sample.Kitchen

/-!
# Trees do not depend on how maps are stored

The entries of a map come to the tree in the order of their keys. The keys of one map are different
and of one kind, so only one order of the entries is sorted: messages that are alike have the same
tree, and the keys of every map in it increase.
-/

namespace GrpcContract

/-! ### Keys in order -/

/-- Whether one map key comes before another of its kind: numbers by value, false before true, and
strings by their bytes. -/
inductive Leaf.Before : Leaf → Leaf → Prop
  | bool : Before (.scalar (.bool false)) (.scalar (.bool true))
  | int32 {a b : Int32} (hlt : a.toInt < b.toInt) : Before (.scalar (.int32 a)) (.scalar (.int32 b))
  | int64 {a b : Int64} (hlt : a.toInt < b.toInt) : Before (.scalar (.int64 a)) (.scalar (.int64 b))
  | uint32 {a b : UInt32} (hlt : a.toNat < b.toNat) :
      Before (.scalar (.uint32 a)) (.scalar (.uint32 b))
  | uint64 {a b : UInt64} (hlt : a.toNat < b.toNat) :
      Before (.scalar (.uint64 a)) (.scalar (.uint64 b))
  | string {a b : String} (hlt : Text.Utf8.encode a.toList < Text.Utf8.encode b.toList) :
      Before (.scalar (.string a)) (.scalar (.string b))

theorem Leaf.Before.asymm {l k : Leaf} (hbefore : l.Before k) : ¬ k.Before l := by
  intro hafter
  cases hbefore with
  | bool => cases hafter
  | int32 hlt | int64 hlt | uint32 hlt | uint64 hlt =>
      cases hafter
      omega
  | string hlt =>
      obtain _ | _ | _ | _ | _ | hgt := hafter
      exact List.lt_asymm hlt hgt

/-- Of two different keys of one kind, the one that is sorted to the front is the one before. -/
theorem MapKey.before_of_keyLe {kind : ScalarKind} {j k : MapKey}
    (hj : kind.admits j.toScalar = true) (hk : kind.admits k.toScalar = true) :
    (Leaf.scalar j.toScalar).keyLe (.scalar k.toScalar) = true → j ≠ k →
      Leaf.Before (.scalar j.toScalar) (.scalar k.toScalar) := by
  apply pair_cases hj hk
  · intro x y hle hne
    cases x <;> cases y
    · exact absurd rfl hne
    · exact .bool
    · cases hle
    · exact absurd rfl hne
  · intro x y hle hne
    have hle : x.toInt ≤ y.toInt := by simpa [Leaf.keyLe, toScalar, Int32.le_iff_toInt_le] using hle
    have hval : x.toInt ≠ y.toInt := fun heq => hne (congrArg int32 (Int32.toInt_inj.mp heq))
    exact .int32 (by omega)
  · intro x y hle hne
    have hle : x.toInt ≤ y.toInt := by simpa [Leaf.keyLe, toScalar, Int64.le_iff_toInt_le] using hle
    have hval : x.toInt ≠ y.toInt := fun heq => hne (congrArg int64 (Int64.toInt_inj.mp heq))
    exact .int64 (by omega)
  · intro x y hle hne
    have hle : x.toNat ≤ y.toNat := by
      simpa [Leaf.keyLe, toScalar, UInt32.le_iff_toNat_le] using hle
    have hval : x.toNat ≠ y.toNat := fun heq => hne (congrArg uint32 (UInt32.toNat_inj.mp heq))
    exact .uint32 (by omega)
  · intro x y hle hne
    have hle : x.toNat ≤ y.toNat := by
      simpa [Leaf.keyLe, toScalar, UInt64.le_iff_toNat_le] using hle
    have hval : x.toNat ≠ y.toNat := fun heq => hne (congrArg uint64 (UInt64.toNat_inj.mp heq))
    exact .uint64 (by omega)
  · intro x y hle hne
    have hle : x ≤ y := of_decide_eq_true hle
    have hlt : x < y := lt_of_le_of_ne hle fun heq => hne (congrArg string heq)
    exact .string (Text.Utf8.encode_lt_encode (String.lt_iff_toList_lt.mp hlt))

def entryBefore (a b : MapKey × Value) : Prop :=
  Leaf.Before (.scalar a.1.toScalar) (.scalar b.1.toScalar)

section Sorting

variable {kind : ScalarKind} {entries stored : List (MapKey × Value)}

/-- The keys of the sorted entries of a map increase. -/
theorem pairwise_entryBefore (hadmits : ∀ e ∈ entries, kind.admits e.1.toScalar = true)
    (hne : entries.Pairwise fun a b => a.1 ≠ b.1) :
    (entries.mergeSort entryLe).Pairwise entryBefore := by
  have hperm := List.mergeSort_perm entries entryLe
  have hdifferent : (entries.mergeSort entryLe).Pairwise fun a b => a.1 ≠ b.1 :=
    (hperm.pairwise_iff fun h => h.symm).mpr hne
  refine ((pairwise_mergeSort_entryLe hadmits).and hdifferent).imp_of_mem ?_
  intro a b ha hb hboth
  have hkind (e : MapKey × Value) (he : e ∈ entries.mergeSort entryLe) :
      kind.admits e.1.toScalar = true :=
    hadmits e (hperm.mem_iff.mp he)
  exact MapKey.before_of_keyLe (hkind a ha) (hkind b hb) hboth.1 hboth.2

/-- However the entries of a map are stored, they are sorted alike. -/
theorem mergeSort_entryLe_eq_of_perm (hadmits : ∀ e ∈ entries, kind.admits e.1.toScalar = true)
    (hne : entries.Pairwise fun a b => a.1 ≠ b.1) (hperm : entries.Perm stored) :
    entries.mergeSort entryLe = stored.mergeSort entryLe := by
  have hstored : (stored.mergeSort entryLe).Pairwise entryBefore := by
    have hkinds : ∀ e ∈ stored, kind.admits e.1.toScalar = true := by
      intro e he
      exact hadmits e (hperm.mem_iff.mpr he)
    exact pairwise_entryBefore hkinds ((hperm.pairwise_iff fun h => h.symm).mp hne)
  have hsorted : (entries.mergeSort entryLe).Perm (stored.mergeSort entryLe) :=
    (List.mergeSort_perm entries entryLe).trans
      (hperm.trans (List.mergeSort_perm stored entryLe).symm)
  refine hsorted.eq_of_pairwise ?_ (pairwise_entryBefore hadmits hne) hstored
  intro a b _ _ hab hba
  exact absurd hba hab.asymm

end Sorting

/-! ### What alike messages show -/

theorem EntriesAlike.keys {entries entries' : List (MapKey × Value)}
    (halike : EntriesAlike entries entries') : entries.map (·.1) = entries'.map (·.1) := by
  induction entries generalizing entries' with
  | nil =>
      cases halike
      rfl
  | cons entry entries ih =>
      obtain ⟨⟩ | ⟨-, htail⟩ := halike
      simp only [List.map_cons, ih htail]

theorem FieldValue.Alike.holds {v w : FieldValue} (halike : v.Alike w) (f : Field) :
    f.holds v = f.holds w := by
  cases halike with
  | single hvalue =>
      cases hvalue with
      | scalar x => rfl
      | message hmessage => rfl
  | list hvalues =>
      cases hvalues with
      | nil => rfl
      | cons hhead htail => rfl
  | @map entries ordered stored hentries hperm =>
      have hempty : ordered.isEmpty = stored.isEmpty := hperm.isEmpty_eq
      rw [Field.holds, Field.holds, ← hempty]
      cases hentries with
      | nil => rfl
      | cons hhead htail => rfl

theorem FieldsAlike.lookup_rel {fields fields' : List (Nat × FieldValue)}
    (halike : FieldsAlike fields fields') (n : Nat) :
    Option.Rel FieldValue.Alike (fields.lookup n) (fields'.lookup n) := by
  induction fields generalizing fields' with
  | nil =>
      cases halike
      exact .none
  | cons field fields ih =>
      obtain ⟨⟩ | ⟨hhead, htail⟩ := halike
      rw [lookup_cons_ite, lookup_cons_ite]
      split
      · exact .some hhead
      · exact ih htail

theorem MessageType.shown_of_alike {fields fields' : List (Nat × FieldValue)}
    (halike : FieldsAlike fields fields') (t : MessageType) : t.shown fields = t.shown fields' := by
  apply List.filter_congr
  intro f _
  have hrel := halike.lookup_rel f.number
  generalize fields.lookup f.number = v?, fields'.lookup f.number = w? at hrel ⊢
  cases hrel with
  | none => rfl
  | some hvalue => rw [Option.any_some, Option.any_some, hvalue.holds]

theorem Message.get_alike {m k : Message} (halike : m.Alike k) (f : Field) :
    (m.get f).Alike (k.get f) := by
  cases halike with
  | @mk stored stored' unknown hfields =>
      have hrel := hfields.lookup_rel f.number
      simp only [get, get?, fields]
      generalize stored.lookup f.number = v?, stored'.lookup f.number = w? at hrel ⊢
      cases hrel with
      | none => exact .refl f.default
      | some hvalue => exact hvalue

section Trees

variable (s : Schema)

mutual
theorem Value.toTree_of_alike : ∀ (type : FieldType) (v w : Value), v.Alike w →
    v.conforms s type = true → v.toTree s type = w.toTree s type
  | _, .scalar _, _, .scalar _, _ => rfl
  | .message name, .message m, .message k, .message halike, hconf =>
      m.toTree_of_alike (s.messageType name) k halike hconf
  | .scalar _, .message _, _, _, hconf => absurd hconf (by simp [Value.conforms])
  | .enum _, .message _, _, _, hconf => absurd hconf (by simp [Value.conforms])

theorem FieldValue.toTree_of_alike : ∀ (shape : Shape) (v w : FieldValue), v.Alike w →
    v.conforms s shape = true → v.toTree s shape.valueType = w.toTree s shape.valueType
  | .single type _ _, .single v, .single w, .single halike, hconf =>
      v.toTree_of_alike type w halike hconf
  | .repeated type _, .list vs, .list ws, .list halike, hconf =>
      congrArg Tree.list (listTrees_of_alike type vs ws halike hconf)
  | .map key value, .map entries, .map stored, @FieldValue.Alike.map _ ordered _ hentries hperm,
      hconf => by
      simp only [FieldValue.conforms, Bool.and_eq_true, decide_eq_true_eq] at hconf
      have hkeys := hentries.keys
      -- The entries that are alike have the keys of the map, so they are sorted in one way only.
      have hadmits : ∀ e ∈ ordered, key.admits e.1.toScalar = true := by
        have hall : ∀ k ∈ entries.map (·.1), key.admits k.toScalar = true := by
          rw [List.forall_mem_map]
          exact admits_of_entriesConform hconf.1
        rw [hkeys, List.forall_mem_map] at hall
        exact hall
      have hne : ordered.Pairwise fun a b => a.1 ≠ b.1 := by
        have hdifferent : (entries.map (·.1)).Pairwise (· ≠ ·) := List.pairwise_map.mpr hconf.2
        rw [hkeys] at hdifferent
        exact List.pairwise_map.mp hdifferent
      have hsorted := mergeSort_entryLe_eq_of_perm hadmits hne hperm
      have htrees := entryTrees_of_alike key value entries ordered hentries hconf.1
      simp only [FieldValue.toTree, Shape.valueType]
      rw [htrees, mergeSort_entryTrees, mergeSort_entryTrees, hsorted]
  | .single .., .list _, _, _, hconf => absurd hconf (by simp [FieldValue.conforms])
  | .single .., .map _, _, _, hconf => absurd hconf (by simp [FieldValue.conforms])
  | .repeated .., .single _, _, _, hconf => absurd hconf (by simp [FieldValue.conforms])
  | .repeated .., .map _, _, _, hconf => absurd hconf (by simp [FieldValue.conforms])
  | .map .., .single _, _, _, hconf => absurd hconf (by simp [FieldValue.conforms])
  | .map .., .list _, _, _, hconf => absurd hconf (by simp [FieldValue.conforms])

/-- Messages that are alike have the same tree. -/
theorem Message.toTree_of_alike : ∀ (t : MessageType) (m k : Message), m.Alike k →
    m.conforms s t = true → m.toTree s t = k.toTree s t
  | t, .mk fields _, .mk fields' _, .mk _ halike, hconf => by
      simp only [Message.conforms, Bool.and_eq_true] at hconf
      rw [Message.toTree, Message.toTree, MessageType.assemble_eq, MessageType.assemble_eq,
        MessageType.shown_of_alike halike, fieldTrees_of_alike t fields fields' halike hconf.1]

theorem listTrees_of_alike : ∀ (type : FieldType) (vs ws : List Value), ValuesAlike vs ws →
    valuesConform s type vs = true → listTrees s type vs = listTrees s type ws
  | _, [], [], .nil, _ => rfl
  | type, v :: vs, w :: ws, .cons hhead htail, hconf => by
      simp only [valuesConform, Bool.and_eq_true] at hconf
      rw [listTrees, listTrees, v.toTree_of_alike type w hhead hconf.1,
        listTrees_of_alike type vs ws htail hconf.2]

theorem entryTrees_of_alike (key : ScalarKind) : ∀ (type : FieldType)
    (entries entries' : List (MapKey × Value)), EntriesAlike entries entries' →
    entriesConform s key type entries = true → entryTrees s type entries = entryTrees s type entries'
  | _, [], [], .nil, _ => rfl
  | type, (k, v) :: entries, (_, w) :: entries', .cons hhead htail, hconf => by
      simp only [entriesConform, Bool.and_eq_true] at hconf
      rw [entryTrees, entryTrees, v.toTree_of_alike type w hhead hconf.1.2,
        entryTrees_of_alike key type entries entries' htail hconf.2]

theorem fieldTrees_of_alike : ∀ (t : MessageType) (fields fields' : List (Nat × FieldValue)),
    FieldsAlike fields fields' → fieldsConform s t fields = true →
    fieldTrees s t fields = fieldTrees s t fields'
  | _, [], [], .nil, _ => rfl
  | t, (n, v) :: fields, (_, w) :: fields', .cons hhead htail, hconf => by
      simp only [fieldsConform, Bool.and_eq_true] at hconf
      obtain ⟨f, hfield, hvalue⟩ := (Option.any_eq_true ..).mp hconf.1
      simp only [fieldTrees, hfield, Option.map_some, Option.getD_some]
      rw [v.toTree_of_alike f.shape w hhead hvalue,
        fieldTrees_of_alike t fields fields' htail hconf.2]
end

end Trees

/-! ### Maps in order -/

namespace Tree

mutual
/-- Whether the keys of every map in a tree increase. -/
def KeysIncrease : Tree → Prop
  | leaf _ => True
  | message fields => FieldsKeysIncrease fields
  | list items => ItemsKeysIncrease items
  | map entries => (entries.Pairwise fun a b => a.1.Before b.1) ∧ EntriesKeysIncrease entries

def FieldsKeysIncrease : List (String × Tree) → Prop
  | [] => True
  | (_, t) :: rest => KeysIncrease t ∧ FieldsKeysIncrease rest

def ItemsKeysIncrease : List Tree → Prop
  | [] => True
  | t :: rest => KeysIncrease t ∧ ItemsKeysIncrease rest

def EntriesKeysIncrease : List (Leaf × Tree) → Prop
  | [] => True
  | (_, t) :: rest => KeysIncrease t ∧ EntriesKeysIncrease rest
end

theorem fieldsKeysIncrease_iff {fields : List (String × Tree)} :
    FieldsKeysIncrease fields ↔ ∀ field ∈ fields, field.2.KeysIncrease := by
  induction fields with
  | nil => simp [FieldsKeysIncrease]
  | cons field fields ih => rw [FieldsKeysIncrease, List.forall_mem_cons, ih]

theorem entriesKeysIncrease_iff {entries : List (Leaf × Tree)} :
    EntriesKeysIncrease entries ↔ ∀ entry ∈ entries, entry.2.KeysIncrease := by
  induction entries with
  | nil => simp [EntriesKeysIncrease]
  | cons entry entries ih => rw [EntriesKeysIncrease, List.forall_mem_cons, ih]

end Tree

theorem Field.keysIncrease_bareTree (f : Field) : f.bareTree.KeysIncrease := by
  unfold bareTree
  split
  · exact trivial
  · exact trivial
  · exact trivial
  · exact ⟨.nil, trivial⟩

theorem MessageType.keysIncrease_defaultTree (t : MessageType) : t.defaultTree.KeysIncrease := by
  rw [defaultTree_eq, Tree.KeysIncrease, Tree.fieldsKeysIncrease_iff, List.forall_mem_map]
  intro f _
  exact f.keysIncrease_bareTree

theorem Field.keysIncrease_defaultTree (s : Schema) (f : Field) :
    (f.defaultTree s).KeysIncrease := by
  unfold defaultTree
  split
  · exact MessageType.keysIncrease_defaultTree _
  · exact f.keysIncrease_bareTree

section Increasing

variable (s : Schema)

mutual
theorem Value.keysIncrease_toTree : ∀ (type : FieldType) (v : Value), v.conforms s type = true →
    (v.toTree s type).KeysIncrease
  | _, .scalar _, _ => trivial
  | .message name, .message m, hconf => m.keysIncrease_toTree (s.messageType name) hconf
  | .scalar _, .message _, hconf => absurd hconf (by simp [Value.conforms])
  | .enum _, .message _, hconf => absurd hconf (by simp [Value.conforms])

theorem FieldValue.keysIncrease_toTree : ∀ (shape : Shape) (v : FieldValue),
    v.conforms s shape = true → (v.toTree s shape.valueType).KeysIncrease
  | .single type _ _, .single v, hconf => v.keysIncrease_toTree type hconf
  | .repeated type _, .list vs, hconf => itemsKeysIncrease_listTrees type vs hconf
  | .map key value, .map entries, hconf => by
      simp only [FieldValue.conforms, Bool.and_eq_true, decide_eq_true_eq] at hconf
      simp only [FieldValue.toTree, Shape.valueType, mergeSort_entryTrees]
      constructor
      · rw [List.pairwise_map]
        exact pairwise_entryBefore (admits_of_entriesConform hconf.1) hconf.2
      · rw [Tree.entriesKeysIncrease_iff, List.forall_mem_map]
        intro e he
        have hmem := (List.mergeSort_perm entries entryLe).mem_iff.mp he
        exact keysIncrease_entries key value entries hconf.1 e hmem
  | .single .., .list _, hconf => absurd hconf (by simp [FieldValue.conforms])
  | .single .., .map _, hconf => absurd hconf (by simp [FieldValue.conforms])
  | .repeated .., .single _, hconf => absurd hconf (by simp [FieldValue.conforms])
  | .repeated .., .map _, hconf => absurd hconf (by simp [FieldValue.conforms])
  | .map .., .single _, hconf => absurd hconf (by simp [FieldValue.conforms])
  | .map .., .list _, hconf => absurd hconf (by simp [FieldValue.conforms])

/-- The keys of every map in the tree of a typed message increase. -/
theorem Message.keysIncrease_toTree : ∀ (t : MessageType) (m : Message),
    m.conforms s t = true → (m.toTree s t).KeysIncrease
  | t, .mk fields _, hconf => by
      simp only [Message.conforms, Bool.and_eq_true] at hconf
      rw [Message.toTree, MessageType.assemble_eq, Tree.KeysIncrease, Tree.fieldsKeysIncrease_iff,
        List.forall_mem_map]
      intro f _
      cases htree : (fieldTrees s t fields).lookup f.number with
      | none => exact f.keysIncrease_defaultTree s
      | some tree => exact keysIncrease_fieldTrees t fields hconf.1 f.number tree htree

theorem itemsKeysIncrease_listTrees : ∀ (type : FieldType) (vs : List Value),
    valuesConform s type vs = true → Tree.ItemsKeysIncrease (listTrees s type vs)
  | _, [], _ => trivial
  | type, v :: vs, hconf => by
      simp only [valuesConform, Bool.and_eq_true] at hconf
      exact ⟨v.keysIncrease_toTree type hconf.1, itemsKeysIncrease_listTrees type vs hconf.2⟩

theorem keysIncrease_entries (key : ScalarKind) : ∀ (type : FieldType)
    (entries : List (MapKey × Value)), entriesConform s key type entries = true →
    ∀ e ∈ entries, (e.2.toTree s type).KeysIncrease
  | _, [], _, _, he => absurd he (List.not_mem_nil)
  | type, (_, v) :: entries, hconf, e, he => by
      simp only [entriesConform, Bool.and_eq_true] at hconf
      rcases List.mem_cons.mp he with rfl | he
      · exact v.keysIncrease_toTree type hconf.1.2
      · exact keysIncrease_entries key type entries hconf.2 e he

theorem keysIncrease_fieldTrees : ∀ (t : MessageType) (fields : List (Nat × FieldValue)),
    fieldsConform s t fields = true → ∀ n tree, (fieldTrees s t fields).lookup n = some tree →
    tree.KeysIncrease
  | _, [], _, _, _, htree => absurd htree (by simp [fieldTrees])
  | t, (k, v) :: fields, hconf, n, tree, htree => by
      simp only [fieldsConform, Bool.and_eq_true] at hconf
      rw [fieldTrees, lookup_cons_ite] at htree
      split at htree
      · obtain ⟨f, hfield, hvalue⟩ := (Option.any_eq_true ..).mp hconf.1
        obtain rfl := Option.some.inj htree
        simp only [hfield, Option.map_some, Option.getD_some]
        exact v.keysIncrease_toTree f.shape hvalue
      · exact keysIncrease_fieldTrees t fields hconf.2 n tree htree
end

end Increasing

/-! ### Codecs -/

section Codecs

variable {s : Schema} {t : MessageType} {m k : Message} {f : Field}

/-- What a map field holds is a typed map, set or not. -/
theorem Message.conforms_get_of_map (hwf : t.WellFormed) (hconf : m.conforms s t = true)
    (hf : f ∈ t.fields) {key : ScalarKind} {type : FieldType} (hshape : f.shape = .map key type) :
    (m.get f).conforms s f.shape = true := by
  rw [get]
  cases hstored : m.get? f.number with
  | none => simp [Field.default, hshape, FieldValue.conforms, entriesConform]
  | some v => exact conforms_of_get? hwf hconf hf hstored

theorem Codec.mapField_of_alike (c : Codec) (hwf : t.WellFormed)
    (hconf : m.conforms c.schema t = true) (halike : m.Alike k) (hf : f ∈ t.fields) :
    c.mapField t m f = c.mapField t k f := by
  have hvalue := m.get_alike halike f
  unfold mapField
  cases hshape : f.shape with
  | single type presence default? => rfl
  | «repeated» type packed => rfl
  | map key type =>
      have htyped := Message.conforms_get_of_map hwf hconf hf hshape
      rw [hshape] at htyped
      generalize m.get f = v, k.get f = w at hvalue htyped
      cases hvalue with
      | single hvalue => rfl
      | list hvalues => rfl
      | map hentries hperm =>
          have htree := FieldValue.toTree_of_alike c.schema (.map key type) _ _
            (.map hentries hperm) htyped
          exact congrArg Except.ok (Tree.map.inj htree)

theorem Codec.keysIncrease_mapField (c : Codec) (hwf : t.WellFormed)
    (hconf : m.conforms c.schema t = true) (hf : f ∈ t.fields) {entries : List (Leaf × Tree)}
    (hentries : c.mapField t m f = .ok entries) : (Tree.map entries).KeysIncrease := by
  unfold mapField at hentries
  cases hshape : f.shape with
  | single type presence default? => simp [hshape] at hentries
  | «repeated» type packed => simp [hshape] at hentries
  | map key type =>
      have htyped := Message.conforms_get_of_map hwf hconf hf hshape
      rw [hshape] at htyped hentries
      cases hget : m.get f with
      | single v =>
          rw [hget] at hentries
          obtain rfl := Except.ok.inj hentries
          exact ⟨.nil, trivial⟩
      | list vs =>
          rw [hget] at hentries
          obtain rfl := Except.ok.inj hentries
          exact ⟨.nil, trivial⟩
      | map stored =>
          rw [hget] at hentries htyped
          obtain rfl := Except.ok.inj hentries
          exact FieldValue.keysIncrease_toTree c.schema (.map key type) (.map stored) htyped

end Codecs

/-- How the entries of maps are stored is of no account: messages that are alike are written alike,
and the keys of every map that is written increase. -/
theorem Codec.encode_eq_of_alike (c : Codec) (t : MessageType) (m k : Message)
    (hwf : t.WellFormed) (hconf : m.conforms c.schema t = true) (halike : m.Alike k) :
    c.encode t m = c.encode t k ∧ (c.encode t m).render = (c.encode t k).render ∧
      (∀ f ∈ t.fields, c.mapField t m f = c.mapField t k f) ∧
      (c.encode t m).KeysIncrease ∧
      ∀ f ∈ t.fields, ∀ entries, c.mapField t m f = .ok entries →
        (Tree.map entries).KeysIncrease := by
  have htree : c.encode t m = c.encode t k := m.toTree_of_alike c.schema t k halike hconf
  have htext : (c.encode t m).render = (c.encode t k).render := by
    rw [htree]
  refine ⟨htree, htext, ?_, m.keysIncrease_toTree c.schema t hconf, ?_⟩
  · intro f hf
    exact c.mapField_of_alike hwf hconf halike hf
  · intro f hf entries hentries
    exact c.keysIncrease_mapField hwf hconf hf hentries

namespace Sample

/-- A tree with kids in a map. -/
def grove (kids : List (MapKey × Value)) : Message :=
  .mk [(4, .map kids)] []

/-- A tree with one and the same grove in a map, in a group and in a list. -/
def estate (kids : List (MapKey × Value)) : Message :=
  .mk [
    (4, .map [(.string "south", .message (grove kids)), (.string "north", .message (grove kids))]),
    (6, .single (.message (grove kids))), (11, .list [.message (grove kids)])] []

theorem estate_alike {kids stored : List (MapKey × Value)} (hperm : kids.Perm stored) :
    (estate kids).Alike (estate stored) := by
  have hgrove : Value.Alike (.message (grove kids)) (.message (grove stored)) :=
    .message (.mk [] (.cons (.map (.refl kids) hperm) .nil))
  apply Message.Alike.mk
  refine .cons (.map (.cons hgrove (.cons hgrove .nil)) (.refl _)) (.cons (.single hgrove) ?_)
  exact .cons (.list (.cons hgrove .nil)) .nil

def kids : List (MapKey × Value) :=
  [(.string "b", .message .empty), (.string "a", .message .empty)]

theorem encode_estate_eq :
    let c : Codec := ⟨kitchen "oracle.v1", {}⟩
    let t := Kitchen.tree "oracle.v1"
    estate kids ≠ estate kids.reverse ∧ t.WellFormed ∧ (estate kids).conforms c.schema t = true ∧
      (estate kids).Alike (estate kids.reverse) ∧
      c.encode t (estate kids) = c.encode t (estate kids.reverse) := by
  have hwf : (Kitchen.tree "oracle.v1").WellFormed := by decide +kernel
  have hconf : (estate kids).conforms (kitchen "oracle.v1") (Kitchen.tree "oracle.v1") = true := by
    decide +kernel
  have halike : (estate kids).Alike (estate kids.reverse) :=
    estate_alike (List.reverse_perm kids).symm
  refine ⟨?_, hwf, hconf, halike, ?_⟩
  · simp [estate, grove, kids]
  · exact (Codec.encode_eq_of_alike ⟨kitchen "oracle.v1", {}⟩ _ _ _ hwf hconf halike).1

end Sample

end GrpcContract
