import GrpcContract.Proofs.KeyOrder
import GrpcContract.Proofs.MessageJson

/-!
# Trees of messages that were read back

A message as its text spells it out has the tree of the completed message: what is set in the one
and not in the other is shown alike.
-/

namespace GrpcContract

/-! ### What a message shows for a field -/

/-- The tree that a message shows for a field. -/
def Message.fieldTree (s : Schema) (m : Message) (f : Field) : Tree :=
  ((m.get? f.number).map (FieldValue.toTree s f.shape.valueType)).getD (f.defaultTree s)

theorem Message.toTree_eq {s : Schema} {t : MessageType} (hwf : t.WellFormed) (m : Message) :
    m.toTree s t = .message ((t.shown m.fields).map fun f => (f.name, m.fieldTree s f)) := by
  obtain ⟨fields, unknown⟩ := m
  rw [Message.toTree, MessageType.assemble_eq]
  refine congrArg Tree.message (List.map_congr_left fun f hf => ?_)
  rw [lookup_fieldTrees, MessageType.typeOf_number hwf (MessageType.mem_shown.mp hf).1]
  rfl

/-- Which fields a message shows is told by which are set. -/
theorem MessageType.shown_congr {t : MessageType} {m k : Message}
    (hhas : ∀ f ∈ t.fields, f.oneof? ≠ none → m.has f = k.has f) :
    t.shown m.fields = t.shown k.fields := by
  apply List.filter_congr
  intro f hf
  cases hgroup : f.oneof? with
  | none => rfl
  | some group =>
      have hboth := hhas f (mem_ordered.mp hf) (by simp [hgroup])
      simpa [Message.has, Message.get?] using hboth

/-- Of the members of groups a message that was spelled out has those set that are. -/
theorem Message.has_spelled {t : MessageType} (hwf : t.WellFormed) (s : Schema) (m : Message)
    {f : Field} (hf : f ∈ t.fields) (hgroup : f.oneof? ≠ none) :
    (m.spelled s t).has f = m.has f := by
  have hshown : f ∈ t.shown m.fields ↔ m.has f = true := by
    rw [MessageType.mem_shown, Message.has, Message.get?]
    simp [hf, hgroup]
  rw [Message.has, get?_spelled hwf s m hf]
  cases hset : m.has f with
  | false => simp [hshown, hset]
  | true =>
      obtain ⟨v, hv, hholds⟩ := (Option.any_eq_true ..).mp hset
      simp [hshown, hset, hv, f.holds_spelled, hholds]

theorem Message.toTree_congr {s : Schema} {t : MessageType} (hwf : t.WellFormed) {m k : Message}
    (hhas : ∀ f ∈ t.fields, f.oneof? ≠ none → m.has f = k.has f)
    (htree : ∀ f ∈ t.shown m.fields, m.fieldTree s f = k.fieldTree s f) :
    m.toTree s t = k.toTree s t := by
  rw [m.toTree_eq hwf, k.toTree_eq hwf, ← MessageType.shown_congr hhas]
  refine congrArg Tree.message (List.map_congr_left fun f hf => ?_)
  rw [htree f hf]

theorem listTrees_eq_map (s : Schema) (type : FieldType) (vs : List Value) :
    listTrees s type vs = vs.map (Value.toTree s type) := by
  induction vs with
  | nil => rfl
  | cons v vs ih => rw [listTrees, ih, List.map_cons]

theorem completeEntries_eq_map (s : Schema) (type : FieldType) (entries : List (MapKey × Value)) :
    completeEntries s type entries = entries.map fun e => (e.1, e.2.complete s type) := by
  induction entries with
  | nil => rfl
  | cons entry rest ih => simp only [completeEntries, List.map_cons, ih]

theorem mergeSort_completeEntries (s : Schema) (type : FieldType)
    (entries : List (MapKey × Value)) :
    (completeEntries s type entries).mergeSort entryLe =
      (entries.mergeSort entryLe).map fun e => (e.1, e.2.complete s type) := by
  rw [completeEntries_eq_map, mergeSort_map_entryLe]

/-! ### Fields without a value -/

theorem Field.message_default {f : Field} {m : Message}
    (hdefault : f.default = .single (.message m)) : m = .empty := by
  unfold Field.default at hdefault
  split at hdefault
  · split at hdefault
    · cases hdefault
    · exact (Value.message.inj (FieldValue.single.inj hdefault)).symm
  · cases hdefault
  · cases hdefault

theorem Field.list_default {f : Field} {vs : List Value} (hdefault : f.default = .list vs) :
    vs = [] := by
  unfold Field.default at hdefault
  split at hdefault
  · split at hdefault <;> cases hdefault
  · exact (FieldValue.list.inj hdefault).symm
  · cases hdefault

theorem Field.map_default {f : Field} {entries : List (MapKey × Value)}
    (hdefault : f.default = .map entries) : entries = [] := by
  unfold Field.default at hdefault
  split at hdefault
  · split at hdefault <;> cases hdefault
  · cases hdefault
  · exact (FieldValue.map.inj hdefault).symm

/-- What a field reads as without a value is shown as in a default instance, unless it is a
message. -/
theorem Field.toTree_default {f : Field} (hplain : ∀ m, f.default ≠ .single (.message m))
    (s : Schema) : f.default.toTree s f.shape.valueType = f.bareTree := by
  unfold Field.bareTree
  cases hdefault : f.default with
  | single v =>
      cases v with
      | scalar x => rfl
      | message m => exact absurd hdefault (hplain m)
  | list vs =>
      obtain rfl := list_default hdefault
      rfl
  | map entries =>
      obtain rfl := map_default hdefault
      rw [FieldValue.toTree, entryTrees, List.mergeSort_nil]

/-- A field of which it is not recorded that it is set is shown alike with its default and
without. -/
theorem Field.toTree_default_of_not_isExplicit {f : Field} (hwf : f.shape.WellFormed)
    (hexplicit : f.isExplicit = false) (hgroup : f.oneof? = none) (s : Schema) :
    f.default.toTree s f.shape.valueType = f.defaultTree s := by
  have hplain := default_ne_message hwf hexplicit hgroup
  rw [toTree_default hplain, defaultTree_eq_bareTree hplain]

theorem MessageType.toTree_spelledDefault (s : Schema) {t : MessageType} (hwf : t.WellFormed) :
    t.spelledDefault.toTree s t = t.defaultInstance.toTree s t := by
  apply Message.toTree_congr hwf
  · intro f hf _
    exact (agree_spelledDefault s hwf f hf).1
  · intro f hf
    have hft := (mem_shown.mp hf).1
    simp only [Message.fieldTree, get?_spelledDefault hwf hft, get?_defaultInstance hwf hft]
    by_cases hexplicit : f.isExplicit = true
    · simp only [Field.oneof?_of_isExplicit hexplicit, hexplicit, ↓reduceIte]
    · have himplicit : f.isExplicit = false := by simpa using hexplicit
      by_cases hgroup : f.oneof? = none
      · simp only [hgroup, himplicit, ↓reduceIte, Bool.false_eq_true, Option.map_some,
          Option.getD_some, Option.map_none, Option.getD_none]
        exact Field.toTree_default_of_not_isExplicit (hwf.2.2 f hft) himplicit hgroup s
      · simp only [hgroup, himplicit, ↓reduceIte, Bool.false_eq_true]

theorem Field.toTree_spelledDefault {s : Schema} {f : Field} (hwf : f.shape.WellFormed)
    (htarget : (f.shape.valueType.target s).WellFormed) :
    (f.spelledDefault s).toTree s f.shape.valueType =
      (f.completion s).toTree s f.shape.valueType := by
  rcases Field.default_cases hwf with ⟨name, presence, default?, hshape, hdefault⟩ | hplain
  · simp only [Field.spelledDefault, hdefault, Field.completion, hshape]
    rw [hshape] at htarget
    exact MessageType.toTree_spelledDefault s htarget
  · rw [Field.spelledDefault_eq_default hplain.1, Field.completion_eq_default hplain.2]

/-- A field that is not set is shown alike where it is spelled out and where it is completed. -/
theorem Message.fieldTree_spelled_of_unset {s : Schema} {t : MessageType} (hsound : s.Sound t)
    {m : Message} {f : Field} (hf : f ∈ t.shown m.fields) (hunset : m.get? f.number = none) :
    (m.spelled s t).fieldTree s f = (m.complete s t).fieldTree s f := by
  obtain ⟨hft, hgroup | hset⟩ := MessageType.mem_shown.mp hf
  · have hwf := hsound.wellFormed
    simp only [Message.fieldTree, get?_spelled hwf s m hft, get?_complete hwf s m hft, hf, hunset,
      ↓reduceIte, Option.map_none, Option.none_or, Option.getD_none, Option.map_some,
      Option.getD_some]
    by_cases hexplicit : f.isExplicit = true
    · simp only [hexplicit, ↓reduceIte, Option.map_some, Option.getD_some]
      exact Field.toTree_spelledDefault (hwf.2.2 f hft) (hsound.target hft).wellFormed
    · have himplicit : f.isExplicit = false := by simpa using hexplicit
      have hwff := hwf.2.2 f hft
      simp only [himplicit, Bool.false_eq_true, ↓reduceIte, Option.map_none, Option.getD_none]
      rw [Field.spelledDefault_of_not_isExplicit hwff himplicit hgroup,
        Field.toTree_default_of_not_isExplicit hwff himplicit hgroup]
  · obtain ⟨v, hv, -⟩ := (Option.any_eq_true ..).mp hset
    exact absurd (hunset.symm.trans hv) (by simp)

/-! ### Messages -/

theorem admits_of_entriesConform {s : Schema} {kind : ScalarKind} {type : FieldType}
    {entries : List (MapKey × Value)} (hconf : entriesConform s kind type entries = true) :
    ∀ e ∈ entries, kind.admits e.1.toScalar = true := by
  induction entries with
  | nil => simp
  | cons entry rest ih =>
      simp only [entriesConform, Bool.and_eq_true] at hconf
      exact List.forall_mem_cons.mpr ⟨hconf.1.1, ih hconf.2⟩

theorem conforms_of_valuesConform {s : Schema} {type : FieldType} {vs : List Value}
    (hconf : valuesConform s type vs = true) : ∀ v ∈ vs, v.conforms s type = true := by
  induction vs with
  | nil => simp
  | cons v vs ih =>
      simp only [valuesConform, Bool.and_eq_true] at hconf
      exact List.forall_mem_cons.mpr ⟨hconf.1, ih hconf.2⟩

theorem conforms_of_entriesConform {s : Schema} {kind : ScalarKind} {type : FieldType}
    {entries : List (MapKey × Value)} (hconf : entriesConform s kind type entries = true) :
    ∀ e ∈ entries, e.2.conforms s type = true := by
  induction entries with
  | nil => simp
  | cons entry entries ih =>
      simp only [entriesConform, Bool.and_eq_true] at hconf
      exact List.forall_mem_cons.mpr ⟨hconf.1.2, ih hconf.2⟩

/-- A typed value is of the shape of its field. -/
theorem FieldValue.conforms_cases {s : Schema} {shape : Shape} {v : FieldValue}
    (hconf : v.conforms s shape = true) :
    (∃ type presence default? w, shape = .single type presence default? ∧ v = .single w ∧
      w.conforms s type = true) ∨
    (∃ type packed vs, shape = .repeated type packed ∧ v = .list vs ∧
      ∀ w ∈ vs, w.conforms s type = true) ∨
    ∃ key type entries, shape = .map key type ∧ v = .map entries ∧
      (∀ e ∈ entries, e.2.conforms s type = true) ∧ entries.Pairwise fun a b => a.1 ≠ b.1 := by
  cases shape with
  | single type presence default? =>
      cases v with
      | single w => exact .inl ⟨type, presence, default?, w, rfl, rfl, hconf⟩
      | _ => exact absurd hconf (by simp [conforms])
  | «repeated» type packed =>
      cases v with
      | list vs => exact .inr (.inl ⟨type, packed, vs, rfl, rfl, conforms_of_valuesConform hconf⟩)
      | _ => exact absurd hconf (by simp [conforms])
  | map key type =>
      cases v with
      | map entries =>
          simp only [conforms, Bool.and_eq_true, decide_eq_true_eq] at hconf
          exact .inr (.inr ⟨key, type, entries, rfl, rfl, conforms_of_entriesConform hconf.1, hconf.2⟩)
      | _ => exact absurd hconf (by simp [conforms])


section Spelled

variable (s : Schema)

mutual
theorem Value.toTree_spelled : ∀ (type : FieldType) (v : Value), s.Sound (type.target s) →
    v.conforms s type = true → (v.spelled s type).toTree s type = (v.complete s type).toTree s type
  | _, .scalar _, _, _ => rfl
  | .message name, .message m, hsound, hconf => m.toTree_spelled (s.messageType name) hsound hconf
  | .scalar _, .message _, _, hconf => absurd hconf (by simp [Value.conforms])
  | .enum _, .message _, _, hconf => absurd hconf (by simp [Value.conforms])

theorem FieldValue.toTree_spelled : ∀ (shape : Shape) (v : FieldValue),
    s.Sound (shape.valueType.target s) → v.conforms s shape = true →
    (v.spelled s shape.valueType).toTree s shape.valueType =
      (v.complete s shape.valueType).toTree s shape.valueType
  | .single type _ _, .single v, hsound, hconf => v.toTree_spelled type hsound hconf
  | .repeated type _, .list vs, hsound, hconf =>
      congrArg Tree.list (listTrees_spelled type vs hsound hconf)
  | .map key value, .map entries, hsound, hconf => by
      simp only [FieldValue.conforms, Bool.and_eq_true] at hconf
      -- The spelled-out entries are sorted already, and the tree sorts them once more.
      have hkeys : ∀ e ∈ spelledEntries s value entries, key.admits e.1.toScalar = true := by
        rw [spelledEntries_eq_map, List.forall_mem_map]
        exact admits_of_entriesConform hconf.1
      simp only [FieldValue.spelled, FieldValue.complete, FieldValue.toTree, Shape.valueType,
        mergeSort_entryTrees, mergeSort_mergeSort_entryLe hkeys]
      rw [mergeSort_spelledEntries, mergeSort_completeEntries, List.map_map, List.map_map]
      refine congrArg Tree.map (List.map_congr_left fun e he => ?_)
      have hmem := (List.mergeSort_perm entries entryLe).mem_iff.mp he
      exact congrArg (Prod.mk _) (entryTrees_spelled key value entries hsound hconf.1 e hmem)
  | .single .., .list _, _, hconf => absurd hconf (by simp [FieldValue.conforms])
  | .single .., .map _, _, hconf => absurd hconf (by simp [FieldValue.conforms])
  | .repeated .., .single _, _, hconf => absurd hconf (by simp [FieldValue.conforms])
  | .repeated .., .map _, _, hconf => absurd hconf (by simp [FieldValue.conforms])
  | .map .., .single _, _, hconf => absurd hconf (by simp [FieldValue.conforms])
  | .map .., .list _, _, hconf => absurd hconf (by simp [FieldValue.conforms])

/-- A typed message that was spelled out has the tree of the completed one. -/
theorem Message.toTree_spelled : ∀ (t : MessageType) (m : Message), s.Sound t →
    m.conforms s t = true → (m.spelled s t).toTree s t = (m.complete s t).toTree s t
  | t, .mk fields unknown, hsound, hconf => by
      have hwf := hsound.wellFormed
      have hagree := Message.agree_spelled s t (.mk fields unknown) hsound hconf
      simp only [Message.conforms, Bool.and_eq_true] at hconf
      have hshown : t.shown ((Message.mk fields unknown).spelled s t).fields = t.shown fields :=
        MessageType.shown_congr (k := .mk fields unknown) fun f hf => Message.has_spelled hwf s _ hf
      apply Message.toTree_congr hwf
      · intro f hf _
        exact (hagree f hf).1
      · intro f hf
        rw [hshown] at hf
        have hft := (MessageType.mem_shown.mp hf).1
        cases hstored : fields.lookup f.number with
        | none => exact Message.fieldTree_spelled_of_unset hsound hf hstored
        | some v =>
            -- The value is found by its number, so the induction goes through the list of fields.
            have hget : (Message.mk fields unknown).get? f.number = some v := hstored
            have htree := fieldTrees_spelled t fields hsound hconf.1 f.number v hstored f hft
              (MessageType.field?_number hwf hft)
            simp only [Message.fieldTree, Message.get?_spelled hwf s _ hft,
              Message.get?_complete hwf s _ hft, hget, Message.fields, hf, ↓reduceIte,
              Option.map_some, Option.some_or, Option.getD_some]
            exact htree

theorem listTrees_spelled : ∀ (type : FieldType) (vs : List Value), s.Sound (type.target s) →
    valuesConform s type vs = true →
    listTrees s type (spelledValues s type vs) = listTrees s type (completeValues s type vs)
  | _, [], _, _ => rfl
  | type, v :: rest, hsound, hconf => by
      simp only [valuesConform, Bool.and_eq_true] at hconf
      simp only [spelledValues, completeValues, listTrees, v.toTree_spelled type hsound hconf.1,
        listTrees_spelled type rest hsound hconf.2]

theorem entryTrees_spelled (key : ScalarKind) : ∀ (type : FieldType)
    (entries : List (MapKey × Value)), s.Sound (type.target s) →
    entriesConform s key type entries = true → ∀ e ∈ entries,
    (e.2.spelled s type).toTree s type = (e.2.complete s type).toTree s type
  | _, [], _, _, _, he => absurd he (List.not_mem_nil)
  | type, (k, v) :: rest, hsound, hconf, e, he => by
      simp only [entriesConform, Bool.and_eq_true] at hconf
      rcases List.mem_cons.mp he with rfl | he
      · exact v.toTree_spelled type hsound hconf.1.2
      · exact entryTrees_spelled key type rest hsound hconf.2 e he

theorem fieldTrees_spelled : ∀ (t : MessageType) (fields : List (Nat × FieldValue)),
    s.Sound t → fieldsConform s t fields = true → ∀ n v, fields.lookup n = some v →
    ∀ f ∈ t.fields, t.field? n = some f →
    (v.spelled s f.shape.valueType).toTree s f.shape.valueType =
      (v.complete s f.shape.valueType).toTree s f.shape.valueType
  | t, (k, v') :: rest, hsound, hconf, n, v, hstored, f, hf, hfield => by
      simp only [fieldsConform, Bool.and_eq_true] at hconf
      rw [lookup_cons_ite] at hstored
      split at hstored
      · rename_i hk
        obtain rfl := Option.some.inj hstored
        subst hk
        have hvalue : v'.conforms s f.shape = true := by
          simpa [hfield] using hconf.1
        exact v'.toTree_spelled f.shape (hsound.target hf) hvalue
      · exact fieldTrees_spelled t rest hsound hconf.2 n v hstored f hf hfield
end

end Spelled

end GrpcContract
