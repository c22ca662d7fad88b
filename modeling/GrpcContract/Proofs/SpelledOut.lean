import GrpcContract.Message.Tree
import GrpcContract.Proofs.Completion

/-!
# Messages as their texts spell them out

The text of a message gives a value to every field that is not an unset member of a group.
`Message.spelled` is the message in which exactly these are set; it reads like the completed
message.
-/

namespace GrpcContract

/-- The default instance with every field outside of groups given its default. -/
def MessageType.spelledDefault (t : MessageType) : Message :=
  .mk ((t.ordered.filter fun f => f.oneof?.isNone).map fun f => (f.number, f.default)) []

/-- What a field without a value is spelled out as. -/
def Field.spelledDefault (s : Schema) (f : Field) : FieldValue :=
  match f.default with
  | .single (.message _) => .single (.message (f.shape.valueType.target s).spelledDefault)
  | v => v

/-- The fields that the text of a message shows: all but the members of groups that are not set. -/
def MessageType.shown (t : MessageType) (fields : List (Nat × FieldValue)) : List Field :=
  t.ordered.filter fun f => f.oneof?.isNone || (fields.lookup f.number).any f.holds

/-- The shown fields with their values, or else with what they are spelled out as without. -/
def MessageType.spellOut (s : Schema) (t : MessageType) (fields values : List (Nat × FieldValue)) :
    Message :=
  .mk ((t.shown fields).map fun f =>
    (f.number, (values.lookup f.number).getD (f.spelledDefault s))) []

def entryLe (a b : MapKey × Value) : Bool :=
  (Leaf.scalar a.1.toScalar).keyLe (.scalar b.1.toScalar)

mutual
def Value.spelled (s : Schema) (type : FieldType) : Value → Value
  | .scalar x => .scalar x
  | .message m => .message (m.spelled s (type.target s))

def FieldValue.spelled (s : Schema) (type : FieldType) : FieldValue → FieldValue
  | .single v => .single (v.spelled s type)
  | .list vs => .list (spelledValues s type vs)
  | .map entries => .map ((spelledEntries s type entries).mergeSort entryLe)

/-- The message that is read from the text of a message. -/
def Message.spelled (s : Schema) (t : MessageType) : Message → Message
  | .mk fields _ => t.spellOut s fields (spelledFields s t fields)

def spelledValues (s : Schema) (type : FieldType) : List Value → List Value
  | [] => []
  | v :: rest => v.spelled s type :: spelledValues s type rest

def spelledEntries (s : Schema) (type : FieldType) : List (MapKey × Value) → List (MapKey × Value)
  | [] => []
  | (k, v) :: rest => (k, v.spelled s type) :: spelledEntries s type rest

def spelledFields (s : Schema) (t : MessageType) : List (Nat × FieldValue) → List (Nat × FieldValue)
  | [] => []
  | (n, v) :: rest => (n, v.spelled s (t.typeOf n)) :: spelledFields s t rest
end

theorem lookup_spelledFields (s : Schema) (t : MessageType) (fields : List (Nat × FieldValue))
    (n : Nat) : (spelledFields s t fields).lookup n =
      (fields.lookup n).map (FieldValue.spelled s (t.typeOf n)) := by
  induction fields with
  | nil => rfl
  | cons entry rest ih =>
      obtain ⟨k, v⟩ := entry
      by_cases hk : n = k
      · subst hk
        simp [spelledFields]
      · simp [spelledFields, lookup_cons_ite, hk, ih]

namespace MessageType

variable {t : MessageType}

theorem mem_shown {fields : List (Nat × FieldValue)} {f : Field} :
    f ∈ t.shown fields ↔
      f ∈ t.fields ∧ (f.oneof? = none ∨ (fields.lookup f.number).any f.holds = true) := by
  simp [shown, mem_ordered]

theorem pairwise_shown (hwf : t.WellFormed) (fields : List (Nat × FieldValue)) :
    (t.shown fields).Pairwise fun f g => f.number < g.number :=
  (pairwise_ordered hwf).sublist (List.filter_sublist ..)

theorem number_ne_of_not_mem (hwf : t.WellFormed) {shown : List Field}
    (hsub : ∀ f ∈ shown, f ∈ t.fields) {f : Field} (hf : f ∈ t.fields) (hmem : f ∉ shown) :
    ∀ g ∈ shown, g.number ≠ f.number := by
  intro g hg heq
  have hfield := field?_number hwf (hsub g hg)
  rw [heq, field?_number hwf hf] at hfield
  exact hmem (Option.some.inj hfield ▸ hg)

theorem get?_spellOut (hwf : t.WellFormed) (s : Schema) (fields values : List (Nat × FieldValue))
    {f : Field} (hf : f ∈ t.fields) :
    (t.spellOut s fields values).get? f.number =
      if f ∈ t.shown fields then some ((values.lookup f.number).getD (f.spelledDefault s))
      else none := by
  have hne : (t.shown fields).Pairwise fun f g => f.number ≠ g.number :=
    (pairwise_shown hwf fields).imp fun hlt => Nat.ne_of_lt hlt
  simp only [spellOut, Message.get?, Message.fields]
  split
  · rename_i hmem
    exact lookup_map_of_mem (fun f => (values.lookup f.number).getD (f.spelledDefault s)) hne hmem
  · rename_i hmem
    exact lookup_map_of_forall_ne _
      (number_ne_of_not_mem hwf (fun g hg => (mem_shown.mp hg).1) hf hmem)

theorem get?_spelledDefault (hwf : t.WellFormed) {f : Field} (hf : f ∈ t.fields) :
    t.spelledDefault.get? f.number = if f.oneof? = none then some f.default else none := by
  have hne : (t.ordered.filter fun f => f.oneof?.isNone).Pairwise fun f g =>
      f.number ≠ g.number :=
    ((pairwise_ordered hwf).sublist (List.filter_sublist ..)).imp fun hlt => Nat.ne_of_lt hlt
  simp only [spelledDefault, Message.get?, Message.fields]
  split
  · rename_i hgroup
    refine lookup_map_of_mem Field.default hne (List.mem_filter.mpr ⟨mem_ordered.mpr hf, ?_⟩)
    simp [hgroup]
  · rename_i hgroup
    refine lookup_map_of_forall_ne _ (number_ne_of_not_mem hwf (fun g hg => ?_) hf ?_)
    · exact mem_ordered.mp (List.mem_filter.mp hg).1
    · simp [hgroup]

theorem get?_defaultInstance (hwf : t.WellFormed) {f : Field} (hf : f ∈ t.fields) :
    t.defaultInstance.get? f.number = if f.isExplicit then some f.default else none := by
  have hne : (t.ordered.filter Field.isExplicit).Pairwise fun f g => f.number ≠ g.number :=
    ((pairwise_ordered hwf).sublist (List.filter_sublist ..)).imp fun hlt => Nat.ne_of_lt hlt
  simp only [defaultInstance, Message.get?, Message.fields]
  split
  · rename_i hexplicit
    exact lookup_map_of_mem Field.default hne
      (List.mem_filter.mpr ⟨mem_ordered.mpr hf, hexplicit⟩)
  · rename_i hexplicit
    refine lookup_map_of_forall_ne _ (number_ne_of_not_mem hwf (fun g hg => ?_) hf ?_)
    · exact mem_ordered.mp (List.mem_filter.mp hg).1
    · simp [hexplicit]

end MessageType

theorem Message.get?_spelled {t : MessageType} (hwf : t.WellFormed) (s : Schema) (m : Message)
    {f : Field} (hf : f ∈ t.fields) :
    (m.spelled s t).get? f.number =
      if f ∈ t.shown m.fields then
        some (((m.get? f.number).map (FieldValue.spelled s f.shape.valueType)).getD
          (f.spelledDefault s))
      else none := by
  obtain ⟨fields, unknown⟩ := m
  rw [Message.spelled, MessageType.get?_spellOut hwf s fields _ hf, lookup_spelledFields,
    MessageType.typeOf_number hwf hf]
  rfl

/-! ### Fields without a value -/

namespace Field

theorem oneof?_of_isExplicit {f : Field} (hexplicit : f.isExplicit = true) : f.oneof? = none := by
  unfold Field.isExplicit at hexplicit
  unfold Field.oneof?
  split at hexplicit
  · rename_i hshape
    rw [hshape]
  · exact absurd hexplicit (by decide)

theorem isExplicit_eq_false {f : Field} (hgroup : f.oneof? ≠ none) : f.isExplicit = false :=
  Bool.eq_false_iff.mpr fun hexplicit => hgroup (oneof?_of_isExplicit hexplicit)

/-- A field of which it is not recorded that it is set does not hold its default. -/
theorem holds_default {f : Field} (hwf : f.shape.WellFormed) (hexplicit : f.isExplicit = false)
    (hgroup : f.oneof? = none) : f.holds f.default = false := by
  obtain ⟨name, number, jsonName, shape⟩ := f
  cases shape with
  | «repeated» type packed => rfl
  | map key value => rfl
  | single type presence default? =>
      cases presence with
      | explicit => exact absurd hexplicit (by simp [Field.isExplicit])
      | oneof group => exact absurd hgroup (by simp [Field.oneof?])
      | implicit =>
          obtain ⟨rfl, hzero⟩ := hwf.2.2 rfl
          obtain ⟨x, hx, hisZero⟩ := (Option.any_eq_true ..).mp hzero
          simp [Field.default, hx, Field.holds, hisZero]

/-- A field of which it is recorded holds whatever single value it is given. -/
theorem holds_single {f : Field} (hexplicit : f.isExplicit = true ∨ f.oneof? ≠ none) (v : Value) :
    f.holds (.single v) = true := by
  cases v with
  | message m => rfl
  | scalar x =>
      obtain ⟨name, number, jsonName, shape⟩ := f
      cases shape with
      | «repeated» type packed => rfl
      | map key value => rfl
      | single type presence default? =>
          cases presence with
          | explicit => rfl
          | oneof group => rfl
          | implicit => simp [Field.isExplicit, Field.oneof?] at hexplicit

theorem exists_single_of_isExplicit {f : Field} (hexplicit : f.isExplicit = true) :
    ∃ type default?, f.shape = .single type .explicit default? := by
  unfold Field.isExplicit at hexplicit
  split at hexplicit
  · exact ⟨_, _, by assumption⟩
  · exact absurd hexplicit (by decide)

/-- The default of a field is a message only where its type is, and is then the empty one. -/
theorem default_cases {f : Field} (hwf : f.shape.WellFormed) :
    (∃ name presence default?, f.shape = .single (.message name) presence default? ∧
      f.default = .single (.message .empty)) ∨
    (∀ m, f.default ≠ .single (.message m)) ∧
      ∀ name presence default?, f.shape ≠ .single (.message name) presence default? := by
  obtain ⟨fieldName, number, jsonName, shape⟩ := f
  cases shape with
  | «repeated» type packed => exact Or.inr ⟨by simp [Field.default], by simp⟩
  | map key value => exact Or.inr ⟨by simp [Field.default], by simp⟩
  | single type presence default? =>
      rcases type.zero?_cases with ⟨name, rfl⟩ | ⟨x, hx⟩
      · cases default? with
        | none => exact Or.inl ⟨name, presence, none, rfl, rfl⟩
        | some x => exact absurd hwf.2.1 (by simp [FieldType.admits])
      · refine Or.inr ⟨?_, ?_⟩
        · cases default? <;> simp [Field.default, hx]
        · rintro name presence' default' heq
          obtain rfl := (Shape.single.inj heq).1
          exact absurd hx (by simp [FieldType.zero?])

theorem spelledDefault_eq_default {f : Field} (hmessage : ∀ m, f.default ≠ .single (.message m))
    (s : Schema) : f.spelledDefault s = f.default := by
  unfold Field.spelledDefault
  split
  · rename_i m heq
    exact absurd heq (hmessage m)
  · rfl

theorem default_ne_message {f : Field} (hwf : f.shape.WellFormed)
    (hexplicit : f.isExplicit = false) (hgroup : f.oneof? = none) (m : Message) :
    f.default ≠ .single (.message m) := by
  intro hdefault
  have hholds := holds_default hwf hexplicit hgroup
  rw [hdefault] at hholds
  exact absurd hholds (by simp [Field.holds])

theorem spelledDefault_of_not_isExplicit {f : Field} (hwf : f.shape.WellFormed)
    (hexplicit : f.isExplicit = false) (hgroup : f.oneof? = none) (s : Schema) :
    f.spelledDefault s = f.default :=
  spelledDefault_eq_default (default_ne_message hwf hexplicit hgroup) s

theorem completion_eq_default {f : Field}
    (hshape : ∀ name presence default?, f.shape ≠ .single (.message name) presence default?)
    (s : Schema) : f.completion s = f.default := by
  unfold Field.completion
  split
  · rename_i name presence default? heq
    exact absurd heq (hshape name presence default?)
  · rfl

theorem exists_single_default {f : Field} (hexplicit : f.isExplicit = true) :
    ∃ v, f.default = .single v := by
  obtain ⟨type, default?, hshape⟩ := exists_single_of_isExplicit hexplicit
  unfold Field.default
  rw [hshape]
  simp only
  split <;> exact ⟨_, rfl⟩

theorem exists_single_spelledDefault {f : Field} (hexplicit : f.isExplicit = true) (s : Schema) :
    ∃ v, f.spelledDefault s = .single v := by
  unfold Field.spelledDefault
  split
  · exact ⟨_, rfl⟩
  · exact exists_single_default hexplicit

theorem exists_single_completion {f : Field} (hexplicit : f.isExplicit = true) (s : Schema) :
    ∃ v, f.completion s = .single v := by
  unfold Field.completion
  split
  · exact ⟨_, rfl⟩
  · exact exists_single_default hexplicit

end Field

/-- The default instance spelled out reads like the default instance. -/
theorem MessageType.agree_spelledDefault (s : Schema) {t : MessageType} (hwf : t.WellFormed) :
    t.spelledDefault.Agree s t t.defaultInstance := by
  intro f hf
  simp only [Message.has, Message.get, get?_spelledDefault hwf hf, get?_defaultInstance hwf hf]
  by_cases hexplicit : f.isExplicit = true
  · simp only [Field.oneof?_of_isExplicit hexplicit, hexplicit, ↓reduceIte, true_and]
    exact .rfl
  · have himplicit : f.isExplicit = false := by simpa using hexplicit
    by_cases hgroup : f.oneof? = none
    · simp only [hgroup, himplicit, ↓reduceIte, Option.any_some, Option.any_none,
        Bool.false_eq_true, Option.getD_some, Option.getD_none,
        Field.holds_default (hwf.2.2 f hf) himplicit hgroup, true_and]
      exact .rfl
    · simp only [hgroup, himplicit, ↓reduceIte, Bool.false_eq_true, true_and]
      exact .rfl

theorem Field.agree_spelledDefault {s : Schema} {f : Field} (hwf : f.shape.WellFormed)
    (htarget : (f.shape.valueType.target s).WellFormed) :
    FieldValue.Agree s f.shape.valueType (f.spelledDefault s) (f.completion s) := by
  rcases Field.default_cases hwf with ⟨name, presence, default?, hshape, hdefault⟩ | hplain
  · simp only [Field.spelledDefault, hdefault, Field.completion, hshape]
    rw [hshape] at htarget
    exact .single (.ofMessage (MessageType.agree_spelledDefault s htarget))
  · rw [Field.spelledDefault_eq_default hplain.1, Field.completion_eq_default hplain.2]
    exact .rfl

/-! ### Fields with a value -/

theorem isEmpty_spelledValues (s : Schema) (type : FieldType) (vs : List Value) :
    (spelledValues s type vs).isEmpty = vs.isEmpty := by
  cases vs <;> rfl

theorem isEmpty_spelledEntries (s : Schema) (type : FieldType) (entries : List (MapKey × Value)) :
    ((spelledEntries s type entries).mergeSort entryLe).isEmpty = entries.isEmpty := by
  rw [(List.mergeSort_perm _ entryLe).isEmpty_eq]
  cases entries <;> rfl

theorem Field.holds_spelled (f : Field) (s : Schema) (type : FieldType) (v : FieldValue) :
    f.holds (v.spelled s type) = f.holds v := by
  cases v with
  | single v => cases v <;> rfl
  | list vs => simp only [FieldValue.spelled, Field.holds, isEmpty_spelledValues]
  | map entries => simp only [FieldValue.spelled, Field.holds, isEmpty_spelledEntries]

theorem Field.holds_complete (f : Field) (s : Schema) (type : FieldType) (v : FieldValue) :
    f.holds (v.complete s type) = f.holds v := by
  cases v with
  | single v => cases v <;> rfl
  | list vs => cases vs <;> rfl
  | map entries => cases entries <;> rfl

theorem keys_spelledEntries (s : Schema) (type : FieldType) (entries : List (MapKey × Value)) :
    (spelledEntries s type entries).map (·.1) = entries.map (·.1) := by
  induction entries with
  | nil => rfl
  | cons entry rest ih => exact congrArg (entry.1 :: ·) ih

theorem pairwise_spelledEntries (s : Schema) (type : FieldType) {entries : List (MapKey × Value)}
    (hne : entries.Pairwise fun a b => a.1 ≠ b.1) :
    (spelledEntries s type entries).Pairwise fun a b => a.1 ≠ b.1 := by
  have hkeys : (entries.map (·.1)).Pairwise (· ≠ ·) := List.pairwise_map.mpr hne
  rw [← keys_spelledEntries s type] at hkeys
  exact List.pairwise_map.mp hkeys

theorem conforms_of_lookup {s : Schema} {t : MessageType} {fields : List (Nat × FieldValue)}
    (hconf : fieldsConform s t fields = true) {n : Nat} {v : FieldValue}
    (hstored : fields.lookup n = some v) :
    ∃ f, t.field? n = some f ∧ v.conforms s f.shape = true := by
  induction fields with
  | nil => simp at hstored
  | cons entry rest ih =>
      obtain ⟨k, w⟩ := entry
      simp only [fieldsConform, Bool.and_eq_true] at hconf
      rw [lookup_cons_ite] at hstored
      split at hstored
      · rename_i hk
        obtain ⟨f, hfield, hvalue⟩ := (Option.any_eq_true ..).mp hconf.1
        obtain rfl := Option.some.inj hstored
        exact ⟨f, hk ▸ hfield, hvalue⟩
      · exact ih hconf.2 hstored

theorem Message.conforms_of_get? {s : Schema} {t : MessageType} (hwf : t.WellFormed) {m : Message}
    (hconf : m.conforms s t = true) {f : Field} (hf : f ∈ t.fields) {v : FieldValue}
    (hstored : m.get? f.number = some v) : v.conforms s f.shape = true := by
  obtain ⟨stored, unknown⟩ := m
  simp only [conforms, Bool.and_eq_true] at hconf
  obtain ⟨g, hfield, hvalue⟩ := conforms_of_lookup hconf.1 hstored
  rw [MessageType.field?_number hwf hf] at hfield
  exact Option.some.inj hfield ▸ hvalue

theorem Field.holds_of_conforms {s : Schema} {f : Field} {v : FieldValue}
    (hconf : v.conforms s f.shape = true) (hgroup : f.oneof? ≠ none) : f.holds v = true := by
  cases v with
  | single v => exact Field.holds_single (Or.inr hgroup) v
  | list vs =>
      obtain ⟨name, number, jsonName, shape⟩ := f
      cases shape with
      | single type presence default? => exact absurd hconf (by simp [FieldValue.conforms])
      | _ => exact absurd hgroup (by simp [Field.oneof?])
  | map entries =>
      obtain ⟨name, number, jsonName, shape⟩ := f
      cases shape with
      | single type presence default? => exact absurd hconf (by simp [FieldValue.conforms])
      | _ => exact absurd hgroup (by simp [Field.oneof?])

/-- Message types of which every type that a message may hold is well formed. -/
def Schema.Sound (s : Schema) (t : MessageType) : Prop :=
  ∀ u, s.Uses t u → u.WellFormed

theorem Schema.sound_of_wellFormed {s : Schema} {t : MessageType} (ht : t.WellFormed)
    (hmessages : ∀ u ∈ s.messages, u.WellFormed) : s.Sound t :=
  forall_uses ht hmessages fun _ => ⟨.nil, .nil, fun _ hf => absurd hf List.not_mem_nil⟩

theorem Schema.Sound.wellFormed {s : Schema} {t : MessageType} (hsound : s.Sound t) :
    t.WellFormed :=
  hsound t (.refl t)

theorem Schema.Sound.target {s : Schema} {t : MessageType} (hsound : s.Sound t) {f : Field}
    (hf : f ∈ t.fields) : s.Sound (f.shape.valueType.target s) :=
  fun u huses => hsound u (.step hf huses)

/-- A field that is not set reads alike where it is spelled out and where it is completed. -/
theorem Message.agree_spelled_of_unset (s : Schema) {t : MessageType} {m : Message} {f : Field}
    (hsound : s.Sound t) (hf : f ∈ t.fields) (hstored : m.get? f.number = none) :
    (m.spelled s t).has f = (m.complete s t).has f ∧
      FieldValue.Agree s f.shape.valueType ((m.spelled s t).get f) ((m.complete s t).get f) := by
  have hwf := hsound.wellFormed
  have hcomplete := Message.get?_complete hwf s m hf
  have hspelled := Message.get?_spelled hwf s m hf
  simp only [Message.has, Message.get, hspelled, hcomplete, hstored]
  by_cases hgroup : f.oneof? = none
  · have hshown : f ∈ t.shown m.fields := MessageType.mem_shown.mpr ⟨hf, Or.inl hgroup⟩
    have hdefault := Field.agree_spelledDefault (s := s) (hwf.2.2 f hf)
      (hsound.target hf).wellFormed
    by_cases hexplicit : f.isExplicit = true
    · obtain ⟨v, hv⟩ := Field.exists_single_spelledDefault hexplicit s
      obtain ⟨w, hw⟩ := Field.exists_single_completion hexplicit s
      rw [hv, hw] at hdefault
      simp only [hshown, hexplicit, ↓reduceIte, Option.map_none, Option.none_or,
        Option.any_some, Option.getD_some, Option.getD_none, hv, hw,
        Field.holds_single (Or.inl hexplicit), true_and]
      exact hdefault
    · have himplicit : f.isExplicit = false := by simpa using hexplicit
      have hplain := Field.spelledDefault_of_not_isExplicit (hwf.2.2 f hf) himplicit hgroup s
      have hholds := Field.holds_default (hwf.2.2 f hf) himplicit hgroup
      simp only [hshown, himplicit, ↓reduceIte, Bool.false_eq_true, Option.map_none,
        Option.none_or, Option.any_some, Option.any_none, Option.getD_some,
        Option.getD_none, hplain, hholds, true_and]
      exact .rfl
  · have hhidden : f ∉ t.shown m.fields := by
      intro hshown
      rcases (MessageType.mem_shown.mp hshown).2 with hnone | hholds
      · exact hgroup hnone
      · obtain ⟨v, hv, -⟩ := (Option.any_eq_true ..).mp hholds
        exact absurd (hstored.symm.trans hv) (by simp)
    have himplicit := Field.isExplicit_eq_false hgroup
    simp only [hhidden, himplicit, ↓reduceIte, Bool.false_eq_true, Option.map_none,
      Option.none_or, true_and]
    exact .rfl

mutual
theorem Value.agree_spelled (s : Schema) : ∀ (type : FieldType) (v : Value),
    s.Sound (type.target s) → v.conforms s type = true →
    Value.Agree s type (v.spelled s type) (v.complete s type)
  | type, .scalar x, _, _ => .refl type (.scalar x)
  | .message name, .message m, hsound, hconf =>
      .ofMessage (m.agree_spelled s (s.messageType name) hsound hconf)
  | .scalar _, .message _, _, hconf => absurd hconf (by simp [Value.conforms])
  | .enum _, .message _, _, hconf => absurd hconf (by simp [Value.conforms])

theorem FieldValue.agree_spelled (s : Schema) : ∀ (shape : Shape) (v : FieldValue),
    s.Sound (shape.valueType.target s) → v.conforms s shape = true →
    FieldValue.Agree s shape.valueType (v.spelled s shape.valueType)
      (v.complete s shape.valueType)
  | .single type _ _, .single v, hsound, hconf => .single (v.agree_spelled s type hsound hconf)
  | .repeated type _, .list vs, hsound, hconf => agree_spelledValues s type vs hsound hconf
  | .map key value, .map entries, hsound, hconf => by
      simp only [FieldValue.conforms, Bool.and_eq_true, decide_eq_true_eq] at hconf
      have hne := pairwise_spelledEntries s value hconf.2
      have hlookup (k : MapKey) := (lookup_eq_of_perm
        (List.mergeSort_perm (spelledEntries s value entries) entryLe).symm hne k).symm
      have hagree := agree_spelledEntries s key value entries hsound hconf.1
      change FieldValue.Agree s value (.map ((spelledEntries s value entries).mergeSort entryLe))
        (.map (completeEntries s value entries))
      refine .map (fun k => ?_) fun k v w hv hw => ?_
      · rw [hlookup]
        exact (hagree k).1
      · rw [hlookup] at hv
        exact (hagree k).2 v w hv hw
  | .single .., .list _, _, hconf => absurd hconf (by simp [FieldValue.conforms])
  | .single .., .map _, _, hconf => absurd hconf (by simp [FieldValue.conforms])
  | .repeated .., .single _, _, hconf => absurd hconf (by simp [FieldValue.conforms])
  | .repeated .., .map _, _, hconf => absurd hconf (by simp [FieldValue.conforms])
  | .map .., .single _, _, hconf => absurd hconf (by simp [FieldValue.conforms])
  | .map .., .list _, _, hconf => absurd hconf (by simp [FieldValue.conforms])

/-- A message as its text spells it out reads like the completed message. -/
theorem Message.agree_spelled (s : Schema) : ∀ (t : MessageType) (m : Message),
    s.Sound t → m.conforms s t = true → (m.spelled s t).Agree s t (m.complete s t)
  | t, .mk fields unknown, hsound, hconf => by
      have hwf := hsound.wellFormed
      simp only [Message.conforms, Bool.and_eq_true] at hconf
      intro f hf
      have hcomplete := Message.get?_complete hwf s (.mk fields unknown) hf
      have hspelled := Message.get?_spelled hwf s (.mk fields unknown) hf
      simp only [Message.has, Message.get, hspelled, hcomplete]
      cases hstored : (Message.mk fields unknown).get? f.number with
      | some v =>
          obtain ⟨g, hfield, hvalue⟩ := conforms_of_lookup hconf.1 hstored
          obtain rfl : f = g := by
            simpa [MessageType.field?_number hwf hf] using hfield
          have hshown : f ∈ t.shown (Message.mk fields unknown).fields := by
            refine MessageType.mem_shown.mpr ⟨hf, ?_⟩
            by_cases hgroup : f.oneof? = none
            · exact Or.inl hgroup
            · have hholds := Field.holds_of_conforms hvalue hgroup
              exact Or.inr ((Option.any_eq_true ..).mpr ⟨v, hstored, hholds⟩)
          have hagree := agree_spelledFields s t fields hsound hconf.1 f.number v hstored f hf
            (MessageType.field?_number hwf hf)
          simp only [hshown, ↓reduceIte, Option.map_some, Option.some_or, Option.any_some,
            Option.getD_some, f.holds_spelled, f.holds_complete, true_and]
          exact hagree
      | none =>
          have hunset := Message.agree_spelled_of_unset s hsound hf hstored
          simpa only [Message.has, Message.get, hspelled, hcomplete, hstored] using hunset

theorem agree_spelledValues (s : Schema) : ∀ (type : FieldType) (vs : List Value),
    s.Sound (type.target s) → valuesConform s type vs = true →
    FieldValue.Agree s type (.list (spelledValues s type vs)) (.list (completeValues s type vs))
  | type, [], _, _ => .rfl
  | type, v :: rest, hsound, hconf => by
      simp only [valuesConform, Bool.and_eq_true] at hconf
      have hhead := v.agree_spelled s type hsound hconf.1
      cases agree_spelledValues s type rest hsound hconf.2 with
      | list hlength hitems =>
          refine .list (by simp [spelledValues, completeValues, hlength]) ?_
          intro i v' w' hv hw
          cases i with
          | zero =>
              simp only [spelledValues, completeValues, List.getElem?_cons_zero,
                Option.some.injEq] at hv hw
              exact hv ▸ hw ▸ hhead
          | succ i => exact hitems i v' w' hv hw

theorem agree_spelledEntries (s : Schema) (key : ScalarKind) : ∀ (type : FieldType)
    (entries : List (MapKey × Value)),
    s.Sound (type.target s) → entriesConform s key type entries = true → ∀ k,
    ((spelledEntries s type entries).lookup k).isSome =
      ((completeEntries s type entries).lookup k).isSome ∧
    ∀ v w, (spelledEntries s type entries).lookup k = some v →
      (completeEntries s type entries).lookup k = some w → Value.Agree s type v w
  | type, [], _, _, _ => by simp [spelledEntries, completeEntries]
  | type, (k', v') :: rest, hsound, hconf, k => by
      simp only [entriesConform, Bool.and_eq_true] at hconf
      have hhead := v'.agree_spelled s type hsound hconf.1.2
      have hrest := agree_spelledEntries s key type rest hsound hconf.2 k
      simp only [spelledEntries, completeEntries, lookup_cons_ite]
      split
      · simp only [Option.isSome_some, Option.some.injEq, true_and]
        intro v w hv hw
        exact hv ▸ hw ▸ hhead
      · exact hrest

theorem agree_spelledFields (s : Schema) : ∀ (t : MessageType) (fields : List (Nat × FieldValue)),
    s.Sound t → fieldsConform s t fields = true → ∀ n v, fields.lookup n = some v →
    ∀ f ∈ t.fields, t.field? n = some f →
    FieldValue.Agree s f.shape.valueType (v.spelled s f.shape.valueType)
      (v.complete s f.shape.valueType)
  | t, (k, v') :: rest, hsound, hconf, n, v, hstored, f, hf, hfield => by
      simp only [fieldsConform, Bool.and_eq_true] at hconf
      rw [lookup_cons_ite] at hstored
      split at hstored
      · rename_i hk
        obtain rfl := Option.some.inj hstored
        subst hk
        have hvalue : v'.conforms s f.shape = true := by
          simpa [hfield] using hconf.1
        exact v'.agree_spelled s f.shape (hsound.target hf) hvalue
      · exact agree_spelledFields s t rest hsound hconf.2 n v hstored f hf hfield
end

end GrpcContract
