import GrpcContract.Proofs.MessageTypes

/-!
# Completion of messages

`Message.complete` sets what a text cannot leave unset: every field outside of groups of which it
is recorded that it is set. `Message.Agree` says that two messages cannot be told apart by asking
which fields are set and reading them, at any depth.
-/

namespace GrpcContract

/-! ### Entries by number -/

theorem lookup_insertNumbered {α : Type} (n k : Nat) (v : α) (entries : List (Nat × α)) :
    (insertNumbered n v entries).lookup k = if k = n then some v else entries.lookup k := by
  induction entries with
  | nil => simp [insertNumbered, lookup_cons_ite]
  | cons entry entries ih =>
      obtain ⟨number, value⟩ := entry
      unfold insertNumbered
      split
      · rw [lookup_cons_ite]
      · split
        · rename_i heq
          subst heq
          by_cases hk : k = n <;> simp [lookup_cons_ite, hk]
        · rename_i hne
          simp only [lookup_cons_ite, ih]
          by_cases hk : k = number
          · have hkn : k ≠ n := fun h => hne (h ▸ hk)
            simp [hk, hk ▸ hkn]
          · simp [hk]

theorem lookup_map_of_mem {α : Type} {fields : List Field} (value : Field → α)
    (hne : fields.Pairwise fun f g => f.number ≠ g.number) {f : Field} (hf : f ∈ fields) :
    (fields.map fun g => (g.number, value g)).lookup f.number = some (value f) :=
  lookup_map_of_pairwise value hne hf

theorem lookup_map_of_forall_ne {α : Type} {fields : List Field} (value : Field → α) {n : Nat}
    (hne : ∀ f ∈ fields, f.number ≠ n) :
    (fields.map fun g => (g.number, value g)).lookup n = none := by
  induction fields with
  | nil => rfl
  | cons g fields ih =>
      have hhead : n ≠ g.number := fun h => hne g (by simp) h.symm
      simp [lookup_cons_ite, hhead, ih fun f hf => hne f (by simp [hf])]

/-! ### Completion -/

/-- Whether it is recorded that the field is set, and the field is in no group. -/
def Field.isExplicit (f : Field) : Bool :=
  match f.shape with
  | .single _ .explicit _ => true
  | _ => false

/-- The default instance of a message type: such fields have their defaults, messages among them
without any field. -/
def MessageType.defaultInstance (t : MessageType) : Message :=
  .mk ((t.ordered.filter Field.isExplicit).map fun f => (f.number, f.default)) []

/-- What completion sets a field to. -/
def Field.completion (s : Schema) (f : Field) : FieldValue :=
  match f.shape with
  | .single (.message name) _ _ => .single (.message (s.messageType name).defaultInstance)
  | _ => f.default

/-- The fields of a message that completion sets. -/
def MessageType.unset (t : MessageType) (fields : List (Nat × FieldValue)) : List Field :=
  t.fields.filter fun f => f.isExplicit && (fields.lookup f.number).isNone

def MessageType.setAll (s : Schema) (unset : List Field) (fields : List (Nat × FieldValue)) :
    List (Nat × FieldValue) :=
  unset.foldl (fun filled f => insertNumbered f.number (f.completion s) filled) fields

/-- The type of the values of the field with a number. -/
def MessageType.typeOf (t : MessageType) (n : Nat) : FieldType :=
  ((t.field? n).map (·.shape.valueType)).getD default

theorem MessageType.typeOf_number {t : MessageType} (hwf : t.WellFormed) {f : Field}
    (hf : f ∈ t.fields) : t.typeOf f.number = f.shape.valueType := by
  simp [typeOf, field?_number hwf hf]

mutual
def Value.complete (s : Schema) (type : FieldType) : Value → Value
  | .scalar x => .scalar x
  | .message m => .message (m.complete s (type.target s))

def FieldValue.complete (s : Schema) (type : FieldType) : FieldValue → FieldValue
  | .single v => .single (v.complete s type)
  | .list vs => .list (completeValues s type vs)
  | .map entries => .map (completeEntries s type entries)

/-- The message with every such field set that is not, here and in every message inside. -/
def Message.complete (s : Schema) (t : MessageType) : Message → Message
  | .mk fields unknown =>
    .mk (MessageType.setAll s (t.unset fields) (completeFields s t fields)) unknown

def completeValues (s : Schema) (type : FieldType) : List Value → List Value
  | [] => []
  | v :: rest => v.complete s type :: completeValues s type rest

def completeEntries (s : Schema) (type : FieldType) :
    List (MapKey × Value) → List (MapKey × Value)
  | [] => []
  | (k, v) :: rest => (k, v.complete s type) :: completeEntries s type rest

def completeFields (s : Schema) (t : MessageType) :
    List (Nat × FieldValue) → List (Nat × FieldValue)
  | [] => []
  | (n, v) :: rest => (n, v.complete s (t.typeOf n)) :: completeFields s t rest
end

mutual
def Value.isComplete (s : Schema) (type : FieldType) : Value → Bool
  | .scalar _ => true
  | .message m => m.isComplete s (type.target s)

def FieldValue.isComplete (s : Schema) (type : FieldType) : FieldValue → Bool
  | .single v => v.isComplete s type
  | .list vs => valuesComplete s type vs
  | .map entries => entriesComplete s type entries

/-- Whether the message has no such field unset, here and in every message inside. -/
def Message.isComplete (s : Schema) (t : MessageType) : Message → Bool
  | .mk fields _ => (t.unset fields).isEmpty && fieldsComplete s t fields

def valuesComplete (s : Schema) (type : FieldType) : List Value → Bool
  | [] => true
  | v :: rest => v.isComplete s type && valuesComplete s type rest

def entriesComplete (s : Schema) (type : FieldType) : List (MapKey × Value) → Bool
  | [] => true
  | (_, v) :: rest => v.isComplete s type && entriesComplete s type rest

def fieldsComplete (s : Schema) (t : MessageType) : List (Nat × FieldValue) → Bool
  | [] => true
  | (n, v) :: rest => v.isComplete s (t.typeOf n) && fieldsComplete s t rest
end

mutual
theorem Value.complete_eq_self (s : Schema) : ∀ (type : FieldType) (v : Value),
    v.isComplete s type = true → v.complete s type = v
  | _, .scalar _, _ => rfl
  | type, .message m, hdone => congrArg Value.message (m.complete_eq_self s (type.target s) hdone)

theorem FieldValue.complete_eq_self (s : Schema) : ∀ (type : FieldType) (v : FieldValue),
    v.isComplete s type = true → v.complete s type = v
  | type, .single v, hdone => congrArg FieldValue.single (v.complete_eq_self s type hdone)
  | type, .list vs, hdone => congrArg FieldValue.list (completeValues_eq_self s type vs hdone)
  | type, .map entries, hdone =>
      congrArg FieldValue.map (completeEntries_eq_self s type entries hdone)

theorem Message.complete_eq_self (s : Schema) : ∀ (t : MessageType) (m : Message),
    m.isComplete s t = true → m.complete s t = m
  | t, .mk fields unknown, hdone => by
      simp only [Message.isComplete, Bool.and_eq_true, List.isEmpty_iff] at hdone
      simp only [Message.complete, hdone.1, MessageType.setAll, List.foldl_nil,
        completeFields_eq_self s t fields hdone.2]

theorem completeValues_eq_self (s : Schema) : ∀ (type : FieldType) (vs : List Value),
    valuesComplete s type vs = true → completeValues s type vs = vs
  | _, [], _ => rfl
  | type, v :: rest, hdone => by
      simp only [valuesComplete, Bool.and_eq_true] at hdone
      simp only [completeValues, v.complete_eq_self s type hdone.1,
        completeValues_eq_self s type rest hdone.2]

theorem completeEntries_eq_self (s : Schema) : ∀ (type : FieldType)
    (entries : List (MapKey × Value)),
    entriesComplete s type entries = true → completeEntries s type entries = entries
  | _, [], _ => rfl
  | type, (_, v) :: rest, hdone => by
      simp only [entriesComplete, Bool.and_eq_true] at hdone
      simp only [completeEntries, v.complete_eq_self s type hdone.1,
        completeEntries_eq_self s type rest hdone.2]

theorem completeFields_eq_self (s : Schema) : ∀ (t : MessageType)
    (fields : List (Nat × FieldValue)),
    fieldsComplete s t fields = true → completeFields s t fields = fields
  | _, [], _ => rfl
  | t, (n, v) :: rest, hdone => by
      simp only [fieldsComplete, Bool.and_eq_true] at hdone
      simp only [completeFields, v.complete_eq_self s (t.typeOf n) hdone.1,
        completeFields_eq_self s t rest hdone.2]
end

theorem lookup_completeFields (s : Schema) (t : MessageType) (fields : List (Nat × FieldValue))
    (n : Nat) : (completeFields s t fields).lookup n =
      (fields.lookup n).map (FieldValue.complete s (t.typeOf n)) := by
  induction fields with
  | nil => rfl
  | cons entry rest ih =>
      obtain ⟨k, v⟩ := entry
      by_cases hk : n = k
      · subst hk
        simp [completeFields]
      · simp [completeFields, lookup_cons_ite, hk, ih]

theorem MessageType.lookup_setAll_of_forall_ne (s : Schema) {unset : List Field} {n : Nat}
    (hne : ∀ f ∈ unset, f.number ≠ n) (fields : List (Nat × FieldValue)) :
    (setAll s unset fields).lookup n = fields.lookup n := by
  induction unset generalizing fields with
  | nil => rfl
  | cons g unset ih =>
      have hhead : n ≠ g.number := fun h => hne g (by simp) h.symm
      have hrest := ih (fun f hf => hne f (by simp [hf]))
        (insertNumbered g.number (g.completion s) fields)
      rw [lookup_insertNumbered, if_neg hhead] at hrest
      exact hrest

theorem MessageType.lookup_setAll_of_mem (s : Schema) {unset : List Field}
    (hne : unset.Pairwise fun f g => f.number ≠ g.number) {f : Field} (hf : f ∈ unset)
    (fields : List (Nat × FieldValue)) :
    (setAll s unset fields).lookup f.number = some (f.completion s) := by
  induction unset generalizing fields with
  | nil => simp at hf
  | cons g unset ih =>
      rw [List.pairwise_cons] at hne
      rcases List.mem_cons.mp hf with rfl | hf
      · have hrest := lookup_setAll_of_forall_ne s (fun g hg => (hne.1 g hg).symm)
          (insertNumbered f.number (f.completion s) fields)
        rw [lookup_insertNumbered, if_pos rfl] at hrest
        exact hrest
      · exact ih hne.2 hf _

/-- What a completed message stores for a field: the completed value where there is one, and else
what completion sets the field to. -/
theorem Message.get?_complete {t : MessageType} (hwf : t.WellFormed) (s : Schema) (m : Message)
    {f : Field} (hf : f ∈ t.fields) :
    (m.complete s t).get? f.number =
      ((m.get? f.number).map (FieldValue.complete s f.shape.valueType)).or
        (if f.isExplicit then some (f.completion s) else none) := by
  obtain ⟨fields, unknown⟩ := m
  have hlookup := lookup_completeFields s t fields f.number
  rw [MessageType.typeOf_number hwf hf] at hlookup
  have hunset : (t.unset fields).Pairwise fun f g => f.number ≠ g.number :=
    hwf.1.sublist (List.filter_sublist ..)
  simp only [Message.complete, Message.get?, Message.fields]
  by_cases hmem : f ∈ t.unset fields
  · have hnone : f.isExplicit = true ∧ fields.lookup f.number = none := by
      simpa [MessageType.unset, hf] using hmem
    rw [MessageType.lookup_setAll_of_mem s hunset hmem, hnone.2, hnone.1]
    rfl
  · have hne : ∀ g ∈ t.unset fields, g.number ≠ f.number := by
      intro g hg heq
      have hgt : g ∈ t.fields := (List.mem_filter.mp hg).1
      have hfield := MessageType.field?_number hwf hgt
      rw [heq, MessageType.field?_number hwf hf] at hfield
      exact hmem (Option.some.inj hfield ▸ hg)
    rw [MessageType.lookup_setAll_of_forall_ne s hne, hlookup]
    cases hstored : fields.lookup f.number with
    | some v => rfl
    | none =>
        have himplicit : f.isExplicit = false := by
          simpa [MessageType.unset, hf, hstored] using hmem
        simp [himplicit]

/-! ### Agreement -/

mutual
/-- Whether two values of a type read alike: equal, or messages of which the same fields are set
and each field reads alike. -/
inductive Value.Agree (s : Schema) : FieldType → Value → Value → Prop
  | refl (type : FieldType) (v : Value) : Value.Agree s type v v
  | message {type : FieldType} {m k : Message}
      (hset : ∀ f ∈ (type.target s).fields, m.has f = k.has f)
      (hread : ∀ f ∈ (type.target s).fields,
        FieldValue.Agree s f.shape.valueType (m.get f) (k.get f)) :
      Value.Agree s type (.message m) (.message k)

/-- Whether two values of a field read alike: lists item by item, and maps key by key. -/
inductive FieldValue.Agree (s : Schema) : FieldType → FieldValue → FieldValue → Prop
  | single {type : FieldType} {v w : Value} (hvalue : Value.Agree s type v w) :
      FieldValue.Agree s type (.single v) (.single w)
  | list {type : FieldType} {vs ws : List Value} (hlength : vs.length = ws.length)
      (hitems : ∀ (i : Nat) v w, vs[i]? = some v → ws[i]? = some w → Value.Agree s type v w) :
      FieldValue.Agree s type (.list vs) (.list ws)
  | map {type : FieldType} {vs ws : List (MapKey × Value)}
      (hkeys : ∀ k, (vs.lookup k).isSome = (ws.lookup k).isSome)
      (hvalues : ∀ k v w, vs.lookup k = some v → ws.lookup k = some w → Value.Agree s type v w) :
      FieldValue.Agree s type (.map vs) (.map ws)
end

/-- Whether two messages of a type read alike, field by field. -/
def Message.Agree (s : Schema) (t : MessageType) (m k : Message) : Prop :=
  ∀ f ∈ t.fields, m.has f = k.has f ∧ FieldValue.Agree s f.shape.valueType (m.get f) (k.get f)

theorem Value.Agree.ofMessage {s : Schema} {type : FieldType} {m k : Message}
    (hagree : m.Agree s (type.target s) k) : Value.Agree s type (.message m) (.message k) :=
  .message (fun f hf => (hagree f hf).1) fun f hf => (hagree f hf).2

theorem FieldValue.Agree.rfl {s : Schema} {type : FieldType} {v : FieldValue} :
    FieldValue.Agree s type v v := by
  cases v with
  | single v => exact .single (.refl type v)
  | list vs =>
      refine .list (by simp) fun i v w hv hw => ?_
      rw [hv] at hw
      exact Option.some.inj hw ▸ .refl type v
  | map entries =>
      refine .map (by simp) fun k v w hv hw => ?_
      rw [hv] at hw
      exact Option.some.inj hw ▸ .refl type v

end GrpcContract
