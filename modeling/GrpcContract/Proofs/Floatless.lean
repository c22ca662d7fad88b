import GrpcContract.Proofs.MessageJson

/-!
# Messages without floating-point numbers

A floating-point number may have a text that is read as a neighbour of it. In the tree of a message
without such numbers every leaf is read back from its own text.
-/

namespace GrpcContract

def FieldType.isFloat : FieldType → Bool
  | scalar .float | scalar .double => true
  | _ => false

/-- Whether a message of the type holds no floating-point numbers, however deep. -/
def Schema.Floatless (s : Schema) (t : MessageType) : Prop :=
  ∀ u, s.Uses t u → ∀ f ∈ u.fields, f.shape.valueType.isFloat = false

theorem Schema.Floatless.field {s : Schema} {t : MessageType} (hfloatless : s.Floatless t)
    {f : Field} (hf : f ∈ t.fields) : f.shape.valueType.isFloat = false :=
  hfloatless t (.refl t) f hf

theorem Schema.Floatless.target {s : Schema} {t : MessageType} (hfloatless : s.Floatless t)
    {f : Field} (hf : f ∈ t.fields) : s.Floatless (f.shape.valueType.target s) :=
  fun u huses => hfloatless u (.step hf huses)

theorem FieldType.readsBack_leaf {type : FieldType} {x : Scalar} (hadmits : type.admits x = true)
    (hfloat : type.isFloat = false) : (type.leaf x).readsBack = true := by
  cases type with
  | scalar kind =>
      cases x with
      | float x | double x =>
          cases kind <;> simp [isFloat, admits, ScalarKind.admits] at hfloat hadmits
      | _ => rfl
  | enum e =>
      cases x with
      | enum n =>
          rw [leaf]
          cases e.nameOf? n <;> rfl
      | _ => cases hadmits
  | message name => cases hadmits

theorem Field.admits_default {f : Field} (hwf : f.shape.WellFormed) {x : Scalar}
    (hdefault : f.default = .single (.scalar x)) : f.shape.valueType.admits x = true := by
  obtain ⟨name, number, jsonName, shape⟩ := f
  cases shape with
  | single type presence default? =>
      simp only [Field.default] at hdefault
      split at hdefault
      · rename_i y hy
        obtain rfl := Value.scalar.inj (FieldValue.single.inj hdefault)
        cases default? with
        | none => exact FieldType.admits_zero? hy
        | some y =>
            obtain rfl := Option.some.inj hy
            simpa [Shape.valueType] using hwf.2.1
      · cases hdefault
  | _ => cases hdefault

theorem Field.floatsReadBack_bareTree {f : Field} (hwf : f.shape.WellFormed)
    (hfloat : f.shape.valueType.isFloat = false) : f.bareTree.floatsReadBack = true := by
  unfold bareTree
  split
  · rename_i x hdefault
    exact FieldType.readsBack_leaf (admits_default hwf hdefault) hfloat
  all_goals rfl

/-- Members of groups are not in a default instance, so they may be floating-point numbers. -/
theorem MessageType.floatsReadBack_defaultTree {t : MessageType} (hwf : t.WellFormed)
    (hfloat : ∀ f ∈ t.fields, f.oneof? = none → f.shape.valueType.isFloat = false) :
    t.defaultTree.floatsReadBack = true := by
  rw [defaultTree_eq, Tree.floatsReadBack, fieldsReadBack_map Field.name Field.bareTree]
  intro f hf
  obtain ⟨hordered, hgroup⟩ := List.mem_filter.mp hf
  have hmem := MessageType.mem_ordered.mp hordered
  exact Field.floatsReadBack_bareTree (hwf.2.2 f hmem) (hfloat f hmem (by simpa using hgroup))

theorem Field.floatsReadBack_defaultTree {s : Schema} {f : Field} (hwf : f.shape.WellFormed)
    (hfloat : f.shape.valueType.isFloat = false)
    (htarget : (f.shape.valueType.target s).defaultTree.floatsReadBack = true) :
    (f.defaultTree s).floatsReadBack = true := by
  unfold defaultTree
  split
  · exact htarget
  · exact Field.floatsReadBack_bareTree hwf hfloat

theorem Message.floatsReadBack_of_shown {s : Schema} {t : MessageType}
    {fields : List (Nat × FieldValue)} (unknown : List (Nat × WireValue))
    (hshown : ∀ f ∈ t.shown fields, (((fieldTrees s t fields).lookup f.number).getD
      (f.defaultTree s)).floatsReadBack = true) :
    ((Message.mk fields unknown).toTree s t).floatsReadBack = true := by
  rw [toTree, MessageType.assemble_eq, Tree.floatsReadBack, fieldsReadBack_map Field.name]
  exact hshown

section Floatless

variable (s : Schema)

mutual
theorem Value.floatsReadBack_toTree : ∀ (type : FieldType) (v : Value), type.isFloat = false →
    s.Sound (type.target s) → s.Floatless (type.target s) → v.conforms s type = true →
    (v.toTree s type).floatsReadBack = true
  | _, .scalar _, hfloat, _, _, hconf => FieldType.readsBack_leaf hconf hfloat
  | .message name, .message m, _, hsound, hfloatless, hconf =>
      Message.floatsReadBack_toTree (s.messageType name) m hsound hfloatless hconf
  | .scalar _, .message _, _, _, _, hconf => absurd hconf (by simp [Value.conforms])
  | .enum _, .message _, _, _, _, hconf => absurd hconf (by simp [Value.conforms])

theorem FieldValue.floatsReadBack_toTree : ∀ (shape : Shape) (v : FieldValue),
    shape.valueType.isFloat = false → s.Sound (shape.valueType.target s) →
    s.Floatless (shape.valueType.target s) → v.conforms s shape = true →
    (v.toTree s shape.valueType).floatsReadBack = true
  | .single type _ _, .single v, hfloat, hsound, hfloatless, hconf =>
      Value.floatsReadBack_toTree type v hfloat hsound hfloatless hconf
  | .repeated type _, .list vs, hfloat, hsound, hfloatless, hconf =>
      itemsReadBack_listTrees type vs hfloat hsound hfloatless hconf
  | .map key type, .map entries, hfloat, hsound, hfloatless, hconf => by
      simp only [FieldValue.conforms, Bool.and_eq_true] at hconf
      have hentries := floatsReadBack_entries key type entries hfloat hsound hfloatless hconf.1
      simp only [FieldValue.toTree, Shape.valueType, Tree.floatsReadBack, mergeSort_entryTrees,
        entriesReadBack_map]
      intro entry hmem
      exact hentries entry ((List.mergeSort_perm ..).mem_iff.mp hmem)
  | .single .., .list _, _, _, _, hconf => absurd hconf (by simp [FieldValue.conforms])
  | .single .., .map _, _, _, _, hconf => absurd hconf (by simp [FieldValue.conforms])
  | .repeated .., .single _, _, _, _, hconf => absurd hconf (by simp [FieldValue.conforms])
  | .repeated .., .map _, _, _, _, hconf => absurd hconf (by simp [FieldValue.conforms])
  | .map .., .single _, _, _, _, hconf => absurd hconf (by simp [FieldValue.conforms])
  | .map .., .list _, _, _, _, hconf => absurd hconf (by simp [FieldValue.conforms])

/-- Where there are no floating-point numbers, there are none that are not read back. -/
theorem Message.floatsReadBack_toTree : ∀ (t : MessageType) (m : Message), s.Sound t →
    s.Floatless t → m.conforms s t = true → (m.toTree s t).floatsReadBack = true
  | t, .mk fields unknown, hsound, hfloatless, hconf => by
      simp only [Message.conforms, Bool.and_eq_true] at hconf
      apply Message.floatsReadBack_of_shown unknown
      intro f hshown
      have hf := (MessageType.mem_shown.mp hshown).1
      cases htree : (fieldTrees s t fields).lookup f.number with
      | none =>
          exact Field.floatsReadBack_defaultTree (hsound.wellFormed.2.2 f hf) (hfloatless.field hf)
            (MessageType.floatsReadBack_defaultTree (hsound.target hf).wellFormed
              fun g hg _ => (hfloatless.target hf).field hg)
      | some tree =>
          exact floatsReadBack_fields t fields hsound hfloatless hconf.1 f.number tree htree

theorem itemsReadBack_listTrees : ∀ (type : FieldType) (vs : List Value), type.isFloat = false →
    s.Sound (type.target s) → s.Floatless (type.target s) → valuesConform s type vs = true →
    Tree.itemsReadBack (listTrees s type vs) = true
  | _, [], _, _, _, _ => rfl
  | type, v :: rest, hfloat, hsound, hfloatless, hconf => by
      simp only [valuesConform, Bool.and_eq_true] at hconf
      rw [listTrees, Tree.itemsReadBack,
        Value.floatsReadBack_toTree type v hfloat hsound hfloatless hconf.1,
        itemsReadBack_listTrees type rest hfloat hsound hfloatless hconf.2]
      rfl

theorem floatsReadBack_entries (key : ScalarKind) : ∀ (type : FieldType)
    (entries : List (MapKey × Value)), type.isFloat = false → s.Sound (type.target s) →
    s.Floatless (type.target s) → entriesConform s key type entries = true →
    ∀ entry ∈ entries, (entry.2.toTree s type).floatsReadBack = true
  | _, [], _, _, _, _, _, hmem => absurd hmem (List.not_mem_nil)
  | type, (_, v) :: rest, hfloat, hsound, hfloatless, hconf, entry, hmem => by
      simp only [entriesConform, Bool.and_eq_true] at hconf
      rcases List.mem_cons.mp hmem with rfl | hmem
      · exact Value.floatsReadBack_toTree type v hfloat hsound hfloatless hconf.1.2
      · exact floatsReadBack_entries key type rest hfloat hsound hfloatless hconf.2 entry hmem

theorem floatsReadBack_fields : ∀ (t : MessageType) (fields : List (Nat × FieldValue)),
    s.Sound t → s.Floatless t → fieldsConform s t fields = true →
    ∀ n tree, (fieldTrees s t fields).lookup n = some tree → tree.floatsReadBack = true
  | _, [], _, _, _, _, _, htree => absurd htree (by simp [fieldTrees])
  | t, (k, v) :: rest, hsound, hfloatless, hconf, n, tree, htree => by
      simp only [fieldsConform, Bool.and_eq_true] at hconf
      rw [fieldTrees, lookup_cons_ite] at htree
      split at htree
      · obtain ⟨f, hfield, hvalue⟩ := (Option.any_eq_true ..).mp hconf.1
        obtain rfl := Option.some.inj htree
        have hf := List.mem_of_find?_eq_some hfield
        rw [hfield]
        exact FieldValue.floatsReadBack_toTree f.shape v (hfloatless.field hf) (hsound.target hf)
          (hfloatless.target hf) hvalue
      · exact floatsReadBack_fields t rest hsound hfloatless hconf.2 n tree htree
end

end Floatless

end GrpcContract
