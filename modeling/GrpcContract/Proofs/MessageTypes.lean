import GrpcContract.Message.ToTree

/-!
# Well-formed message types and typed messages

`MessageType.WellFormed` is what a compiler of schemas guarantees about a message type, and
`Message.conforms` what every setter of a field guarantees about a message. Both are decidable.
-/

namespace GrpcContract

/-! ### Lookups by key -/

theorem find?_eq_some_of_pairwise {α κ : Type} [DecidableEq κ] {key : α → κ} {l : List α}
    (hl : l.Pairwise fun a b => key a ≠ key b) {a : α} (ha : a ∈ l) :
    l.find? (fun b => key b == key a) = some a := by
  induction l with
  | nil => simp at ha
  | cons b l ih =>
      rw [List.pairwise_cons] at hl
      rcases List.mem_cons.mp ha with rfl | ha
      · simp
      · have hne : (key b == key a) = false := by
          simpa using hl.1 a ha
        rw [List.find?_cons, hne]
        exact ih hl.2 ha

theorem eq_of_pairwise_of_key {α κ : Type} [DecidableEq κ] {key : α → κ} {l : List α}
    (hl : l.Pairwise fun a b => key a ≠ key b) {a b : α} (ha : a ∈ l) (hb : b ∈ l)
    (hkey : key a = key b) : a = b := by
  have hfind := find?_eq_some_of_pairwise hl ha
  rw [hkey, find?_eq_some_of_pairwise hl hb] at hfind
  exact (Option.some.inj hfind).symm

theorem lookup_cons_ite {α κ : Type} [DecidableEq κ] (k n : κ) (v : α) (entries : List (κ × α)) :
    ((n, v) :: entries).lookup k = if k = n then some v else entries.lookup k := by
  rw [List.lookup_cons]
  by_cases hk : k = n
  · simp [hk]
  · simp [beq_eq_false_iff_ne.mpr hk, hk]

theorem mem_of_lookup {α κ : Type} [DecidableEq κ] {entries : List (κ × α)} {k : κ} {v : α}
    (hfound : entries.lookup k = some v) : (k, v) ∈ entries := by
  obtain ⟨before, after, hsplit, -⟩ := List.lookup_eq_some_iff.mp hfound
  rw [hsplit]
  exact List.mem_append_right before List.mem_cons_self

theorem lookup_eq_of_perm {α κ : Type} [DecidableEq κ] {entries entries' : List (κ × α)}
    (hperm : entries.Perm entries') (hne : entries.Pairwise fun a b => a.1 ≠ b.1) (k : κ) :
    entries.lookup k = entries'.lookup k := by
  induction hperm with
  | nil => rfl
  | cons entry hperm ih =>
      rw [List.pairwise_cons] at hne
      rw [lookup_cons_ite, lookup_cons_ite, ih hne.2]
  | swap entry entry' entries =>
      have hkeys : entry'.1 ≠ entry.1 := (List.pairwise_cons.mp hne).1 entry (by simp)
      rw [lookup_cons_ite, lookup_cons_ite, lookup_cons_ite, lookup_cons_ite]
      by_cases hk : k = entry.1
      · simp [hk, hkeys.symm]
      · simp [hk]
  | trans hperm _ ih ih' =>
      rw [ih hne]
      exact ih' ((hperm.pairwise_iff (fun h => h.symm)).mp hne)

theorem lookup_map_of_pairwise {α β κ : Type} [DecidableEq κ] {key : α → κ} (value : α → β)
    {l : List α} (hl : l.Pairwise fun a b => key a ≠ key b) {a : α} (ha : a ∈ l) :
    (l.map fun b => (key b, value b)).lookup (key a) = some (value a) := by
  induction l with
  | nil => simp at ha
  | cons b l ih =>
      rw [List.pairwise_cons] at hl
      rw [List.map_cons, lookup_cons_ite]
      rcases List.mem_cons.mp ha with rfl | ha
      · exact if_pos rfl
      · rw [if_neg fun heq => hl.1 a ha heq.symm]
        exact ih hl.2 ha

theorem lookup_map_snd {α β : Type} (g : α → β) (entries : List (String × α)) (key : String) :
    (entries.map fun entry => (entry.1, g entry.2)).lookup key = (entries.lookup key).map g := by
  induction entries with
  | nil => rfl
  | cons entry entries ih =>
      obtain ⟨name, value⟩ := entry
      by_cases hkey : key = name
      · simp [hkey]
      · simp [lookup_cons_ite, hkey, ih]

/-! ### Types -/

/-- Whether a kind may be that of map keys. -/
def ScalarKind.isKey : ScalarKind → Bool
  | .double | .float | .bytes => false
  | _ => true

/-- Whether a scalar is a value of the kind. -/
def ScalarKind.admits (kind : ScalarKind) (x : Scalar) : Bool :=
  match kind, x with
  | .double, .double _ | .float, .float _ => true
  | .int32, .int32 _ | .sint32, .int32 _ | .sfixed32, .int32 _ => true
  | .int64, .int64 _ | .sint64, .int64 _ | .sfixed64, .int64 _ => true
  | .uint32, .uint32 _ | .fixed32, .uint32 _ => true
  | .uint64, .uint64 _ | .fixed64, .uint64 _ => true
  | .bool, .bool _ | .string, .string _ | .bytes, .bytes _ => true
  | _, _ => false

theorem ScalarKind.admits_zero (kind : ScalarKind) : kind.admits kind.zero = true := by
  cases kind <;> rfl

/-- Whether a scalar is a value of the type. -/
def FieldType.admits : FieldType → Scalar → Bool
  | .scalar kind, x => kind.admits x
  | .enum _, .enum _ => true
  | _, _ => false

theorem FieldType.admits_zero? {type : FieldType} {x : Scalar} (hzero : type.zero? = some x) :
    type.admits x = true := by
  cases type with
  | scalar kind =>
      obtain rfl := Option.some.inj hzero
      exact kind.admits_zero
  | enum e =>
      obtain rfl := Option.some.inj hzero
      rfl
  | message name => exact absurd hzero (by simp [FieldType.zero?])

/-- Whether the values of an enumeration have different names. -/
def FieldType.WellFormed : FieldType → Prop
  | .enum e => e.values.Pairwise fun v w => v.1 ≠ w.1
  | _ => True

instance : DecidablePred FieldType.WellFormed
  | .enum e => inferInstanceAs (Decidable (e.values.Pairwise fun v w => v.1 ≠ w.1))
  | .scalar _ | .message _ => inferInstanceAs (Decidable True)

/-- Whether a default is of its type, a field of which it is not recorded that it is set reads
as zero when it is not, and keys are of a kind for keys. -/
def Shape.WellFormed : Shape → Prop
  | .single type presence default? =>
    type.WellFormed ∧ default?.all type.admits = true ∧
      (presence = .implicit → default? = none ∧ type.zero?.any Scalar.isZero = true)
  | .repeated type _ => type.WellFormed
  | .map key value => key.isKey = true ∧ value.WellFormed

instance : DecidablePred Shape.WellFormed
  | .single .. => inferInstanceAs (Decidable (_ ∧ _ ∧ _))
  | .repeated type _ => inferInstanceAs (Decidable type.WellFormed)
  | .map .. => inferInstanceAs (Decidable (_ ∧ _))

namespace MessageType

/-- Whether the fields have different numbers and names and are well formed each. -/
def WellFormed (t : MessageType) : Prop :=
  t.fields.Pairwise (fun f g => f.number ≠ g.number) ∧
  t.fields.Pairwise (fun f g => f.name ≠ g.name) ∧
  ∀ f ∈ t.fields, f.shape.WellFormed

instance : DecidablePred WellFormed := fun _ => inferInstanceAs (Decidable (_ ∧ _ ∧ _))

/-- Whether no field's declared name is the JSON name of another field. -/
def NoCrossedNames (t : MessageType) : Prop :=
  ∀ f ∈ t.fields, ∀ g ∈ t.fields, f.name = g.jsonName → f = g

instance : DecidablePred NoCrossedNames :=
  fun t => inferInstanceAs (Decidable (∀ f ∈ t.fields, ∀ g ∈ t.fields, f.name = g.jsonName → f = g))

variable {t : MessageType}

theorem mem_ordered {f : Field} : f ∈ t.ordered ↔ f ∈ t.fields :=
  (List.mergeSort_perm t.fields _).mem_iff

theorem pairwise_ordered (hwf : t.WellFormed) :
    t.ordered.Pairwise fun f g => f.number < g.number := by
  have hle : t.ordered.Pairwise fun f g => decide (f.number ≤ g.number) = true :=
    List.pairwise_mergeSort (by simp; omega) (by simp; omega) t.fields
  have hne : t.ordered.Pairwise fun f g => f.number ≠ g.number :=
    ((List.mergeSort_perm t.fields _).pairwise_iff (fun h => h.symm)).mpr hwf.1
  refine (hle.and hne).imp ?_
  intro f g hboth
  have hle := of_decide_eq_true hboth.1
  have hne := hboth.2
  omega

theorem pairwise_ordered_name (hwf : t.WellFormed) :
    t.ordered.Pairwise fun f g => f.name ≠ g.name :=
  ((List.mergeSort_perm t.fields _).pairwise_iff fun h => h.symm).mpr hwf.2.1

theorem field?_number (hwf : t.WellFormed) {f : Field} (hf : f ∈ t.fields) :
    t.field? f.number = some f :=
  find?_eq_some_of_pairwise hwf.1 hf

/-- Where no other field has it for a JSON name, the declared name of a field means that field as a
key. -/
theorem keyed?_own_name (hwf : t.WellFormed) {f : Field} (hf : f ∈ t.fields)
    (hown : ∀ g ∈ t.fields, g.jsonName = f.name → g = f) : t.keyed? f.name = some f := by
  unfold keyed?
  cases hjson : t.fields.find? (·.jsonName == f.name) with
  | none => exact find?_eq_some_of_pairwise hwf.2.1 hf
  | some g =>
      have hbeq := List.find?_some hjson
      have hname : g.jsonName = f.name := eq_of_beq hbeq
      rw [hown g (List.mem_of_find?_eq_some hjson) hname]
      rfl

/-- Where no names are crossed, every declared name means its field. -/
theorem keyed?_name (hwf : t.WellFormed) (hnames : t.NoCrossedNames) {f : Field}
    (hf : f ∈ t.fields) : t.keyed? f.name = some f :=
  keyed?_own_name hwf hf fun g hg hname => (hnames f hf g hg hname.symm).symm

end MessageType

/-- Whether a message of type `t` may hold one of type `u`, at any depth. -/
inductive Schema.Uses (s : Schema) : MessageType → MessageType → Prop
  | refl (t : MessageType) : Uses s t t
  | step {t u : MessageType} {f : Field} (hf : f ∈ t.fields)
      (huses : Uses s (f.shape.valueType.target s) u) : Uses s t u

theorem Schema.messageType_cases (s : Schema) (name : String) :
    s.messageType name ∈ s.messages ∨ s.messageType name = ⟨name, []⟩ := by
  unfold Schema.messageType
  cases hfind : s.messageType? name with
  | none => exact Or.inr rfl
  | some t => exact Or.inl (List.mem_of_find?_eq_some hfind)

/-- What holds of a type, of the types of the schema and of types without fields holds of all
that a message of the type may hold. -/
theorem Schema.forall_uses {s : Schema} {t : MessageType} {P : MessageType → Prop} (ht : P t)
    (hmessages : ∀ u ∈ s.messages, P u) (hempty : ∀ name, P ⟨name, []⟩) :
    ∀ u, s.Uses t u → P u := by
  intro u huses
  induction huses with
  | refl t => exact ht
  | @step t u f hf huses ih =>
      refine ih ?_
      cases hkind : f.shape.valueType with
      | message name =>
          rcases s.messageType_cases name with hmem | heq
          · exact hmessages _ hmem
          · rw [FieldType.target, heq]
            exact hempty name
      | _ => exact hempty ""

theorem FieldType.zero?_cases (type : FieldType) :
    (∃ name, type = .message name) ∨ ∃ x, type.zero? = some x := by
  cases type with
  | message name => exact Or.inl ⟨name, rfl⟩
  | _ => exact Or.inr ⟨_, rfl⟩

/-! ### Messages -/

mutual
def Value.conforms (s : Schema) (type : FieldType) : Value → Bool
  | .scalar x => type.admits x
  | .message m =>
    match type with
    | .message name => m.conforms s (s.messageType name)
    | _ => false

def FieldValue.conforms (s : Schema) (shape : Shape) : FieldValue → Bool
  | .single v =>
    match shape with
    | .single type _ _ => v.conforms s type
    | _ => false
  | .list vs =>
    match shape with
    | .repeated type _ => valuesConform s type vs
    | _ => false
  | .map entries =>
    match shape with
    | .map key value =>
      entriesConform s key value entries && decide (entries.Pairwise fun a b => a.1 ≠ b.1)
    | _ => false

/-- Whether every value of the message is one of its field, the keys of each map are different,
and at most one member of each group is set, here and in every message inside. -/
def Message.conforms (s : Schema) (t : MessageType) : Message → Bool
  | .mk fields _ =>
    fieldsConform s t fields &&
      decide (∀ f ∈ t.fields, ∀ g ∈ t.fields, f.oneof?.isSome → f.oneof? = g.oneof? →
        (fields.lookup f.number).isSome → (fields.lookup g.number).isSome → f = g)

def fieldsConform (s : Schema) (t : MessageType) : List (Nat × FieldValue) → Bool
  | [] => true
  | (n, v) :: rest =>
    (t.field? n).any (fun f => v.conforms s f.shape) && fieldsConform s t rest

def valuesConform (s : Schema) (type : FieldType) : List Value → Bool
  | [] => true
  | v :: rest => v.conforms s type && valuesConform s type rest

def entriesConform (s : Schema) (key : ScalarKind) (value : FieldType) :
    List (MapKey × Value) → Bool
  | [] => true
  | (k, v) :: rest =>
    key.admits k.toScalar && v.conforms s value && entriesConform s key value rest
end

end GrpcContract
