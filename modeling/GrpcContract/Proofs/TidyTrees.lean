import GrpcContract.Proofs.CodecRoundTrip
import GrpcContract.Proofs.TidyReading

/-!
# Texts of messages are tidy

The tree of a message shows each field once, under a key that means no other field, and each key
of a map once. So what it is written as is tidy, and a lenient reader skips nothing of it.
-/

namespace GrpcContract

open Json

/-! ### Leaves -/

section Tidy

variable (o : CodecOptions) (s : Schema)

theorem tidyValue_leaf (type : FieldType) (l : Leaf) : tidyValue o s type l.written = true := by
  obtain ⟨hobject, -⟩ := l.written_cases
  cases hwritten : l.written with
  | object members => exact absurd hwritten (hobject members)
  | _ => rfl

theorem tidyField_leaf (shape : Shape) (l : Leaf) : tidyField o s shape l.written = true := by
  obtain ⟨hobject, harray⟩ := l.written_cases
  cases hwritten : l.written with
  | object members => exact absurd hwritten (hobject members)
  | array items => exact absurd hwritten (harray items)
  | _ => rfl

/-! ### Fields -/

variable {o s}

/-- Different fields under their names are tidy where each of their values is. -/
theorem tidyMembers_map {t : MessageType} (hwf : t.WellFormed) (hnames : t.NoCrossedNames)
    {shown : List Field} (hshown : ∀ f ∈ shown, f ∈ t.fields)
    (hdifferent : shown.Pairwise fun f g => f.number < g.number) {json : Field → Json}
    (htidy : ∀ f ∈ shown, tidyField o s f.shape (json f) = true) :
    tidyMembers o s t (shown.map fun f => (f.name, json f)) = true := by
  rw [tidyMembers_iff, List.pairwise_map, List.forall_mem_map]
  constructor
  · refine hdifferent.imp_of_mem fun {f g} hf hg hlt k hkf hkg => ?_
    rw [MessageType.keyed?_name hwf hnames (hshown f hf)] at hkf
    rw [MessageType.keyed?_name hwf hnames (hshown g hg)] at hkg
    obtain rfl := Option.some.inj (hkf.trans hkg.symm)
    exact Nat.lt_irrefl _ hlt
  · intro f hf
    simp only [MessageType.keyed?_name hwf hnames (hshown f hf)]
    exact htidy f hf

theorem tidyField_bareTree (f : Field) : tidyField o s f.shape f.bareTree.written = true := by
  unfold Field.bareTree
  split
  · exact tidyField_leaf o s f.shape _
  · cases f.shape with
    | single type presence default? => cases type <;> rfl
    | _ => rfl
  · cases f.shape <;> rfl
  · cases f.shape with
    | single type presence default? => cases type <;> rfl
    | _ => rfl

theorem exists_tidyMembers_defaultTree {t : MessageType} (hwf : t.WellFormed)
    (hnames : t.NoCrossedNames) : ∃ members, t.defaultTree.written = .object members ∧
      tidyMembers o s t members = true := by
  rw [MessageType.defaultTree_eq]
  refine ⟨_, rfl, ?_⟩
  rw [fieldsWritten_map Field.name Field.bareTree]
  exact tidyMembers_map hwf hnames
    (fun f hf => MessageType.mem_ordered.mp (List.mem_filter.mp hf).1)
    ((MessageType.pairwise_ordered hwf).sublist (List.filter_sublist ..))
    fun f _ => tidyField_bareTree f

theorem tidyField_defaultTree {f : Field} (hwf : f.shape.WellFormed)
    (htarget : (f.shape.valueType.target s).WellFormed)
    (hnames : (f.shape.valueType.target s).NoCrossedNames) :
    tidyField o s f.shape (f.defaultTree s).written = true := by
  rcases Field.default_cases hwf with ⟨name, presence, default?, hshape, hdefault⟩ | ⟨hplain, -⟩
  · rw [hshape] at htarget hnames
    obtain ⟨members, hwritten, htidy⟩ := exists_tidyMembers_defaultTree (o := o) (s := s)
      htarget hnames
    simp only [Field.defaultTree, hdefault, hshape, hwritten]
    exact htidy
  · rw [Field.defaultTree_eq_bareTree hplain]
    exact tidyField_bareTree f

end Tidy

/-! ### Messages -/

section Written

variable (o : CodecOptions) (s : Schema)

mutual
theorem tidyValue_written : ∀ (type : FieldType) (v : Value), s.Sound (type.target s) →
    s.Uncrossed (type.target s) → v.conforms s type = true →
    tidyValue o s type (v.toTree s type).written = true
  | type, .scalar x, _, _, _ => tidyValue_leaf o s type (type.leaf x)
  | .message name, .message m, hsound, huncrossed, hconf => by
      obtain ⟨members, hwritten, htidy⟩ :=
        tidyMembers_written (s.messageType name) m hsound huncrossed hconf
      simp only [Value.toTree, FieldType.target, hwritten]
      exact htidy
  | .scalar _, .message _, _, _, hconf => absurd hconf (by simp [Value.conforms])
  | .enum _, .message _, _, _, hconf => absurd hconf (by simp [Value.conforms])

theorem tidyField_written : ∀ (shape : Shape) (v : FieldValue),
    s.Sound (shape.valueType.target s) → s.Uncrossed (shape.valueType.target s) →
    v.conforms s shape = true → tidyField o s shape (v.toTree s shape.valueType).written = true
  | shape, .single (.scalar x), _, _, _ => tidyField_leaf o s shape (shape.valueType.leaf x)
  | .single (.message name) _ _, .single (.message m), hsound, huncrossed, hconf => by
      obtain ⟨members, hwritten, htidy⟩ :=
        tidyMembers_written (s.messageType name) m hsound huncrossed hconf
      simp only [FieldValue.toTree, Value.toTree, Shape.valueType, FieldType.target, hwritten]
      exact htidy
  | .repeated type _, .list vs, hsound, huncrossed, hconf =>
      tidyItems_written type vs hsound huncrossed hconf
  | .map key value, .map entries, hsound, huncrossed, hconf => by
      simp only [FieldValue.conforms, Bool.and_eq_true, decide_eq_true_eq] at hconf
      have hperm := List.mergeSort_perm entries entryLe
      have hentry := tidyEntries_written key value entries hsound huncrossed hconf.1
      have hkeys : (entries.mergeSort entryLe).Pairwise fun a b => a.1 ≠ b.1 :=
        (hperm.symm.pairwise_iff fun h => h.symm).mp hconf.2
      simp only [FieldValue.toTree, Shape.valueType, Tree.written, mergeSort_entryTrees,
        entriesWritten_map, tidyField]
      rw [tidyEntries_iff, List.pairwise_map, List.forall_mem_map]
      refine ⟨hkeys.imp_of_mem fun {a b} ha hb hab k hka hkb => ?_, fun e he => ?_⟩
      · rw [(hentry a (hperm.mem_iff.mp ha)).1] at hka
        rw [(hentry b (hperm.mem_iff.mp hb)).1] at hkb
        exact hab (Option.some.inj (hka.trans hkb.symm))
      · exact (hentry e (hperm.mem_iff.mp he)).2
  | .single (.scalar _) _ _, .single (.message _), _, _, hconf =>
      absurd hconf (by simp [FieldValue.conforms, Value.conforms])
  | .single (.enum _) _ _, .single (.message _), _, _, hconf =>
      absurd hconf (by simp [FieldValue.conforms, Value.conforms])
  | .single .., .list _, _, _, hconf => absurd hconf (by simp [FieldValue.conforms])
  | .single .., .map _, _, _, hconf => absurd hconf (by simp [FieldValue.conforms])
  | .repeated .., .single (.message _), _, _, hconf => absurd hconf (by simp [FieldValue.conforms])
  | .repeated .., .map _, _, _, hconf => absurd hconf (by simp [FieldValue.conforms])
  | .map .., .single (.message _), _, _, hconf => absurd hconf (by simp [FieldValue.conforms])
  | .map .., .list _, _, _, hconf => absurd hconf (by simp [FieldValue.conforms])

/-- What the tree of a typed message is written as is tidy. -/
theorem tidyMembers_written : ∀ (t : MessageType) (m : Message), s.Sound t → s.Uncrossed t →
    m.conforms s t = true → ∃ members, (m.toTree s t).written = .object members ∧
      tidyMembers o s t members = true
  | t, .mk fields unknown, hsound, huncrossed, hconf => by
      have hwf := hsound.wellFormed
      simp only [Message.conforms, Bool.and_eq_true] at hconf
      have hmem : ∀ f ∈ t.shown fields, f ∈ t.fields :=
        fun f hf => (MessageType.mem_shown.mp hf).1
      rw [Message.toTree, MessageType.assemble_eq]
      refine ⟨_, rfl, ?_⟩
      rw [fieldsWritten_map Field.name]
      refine tidyMembers_map hwf huncrossed.noCrossedNames hmem
        (MessageType.pairwise_shown hwf fields) fun f hf => ?_
      have hft := hmem f hf
      have htree := lookup_fieldTrees s t fields f.number
      rw [MessageType.typeOf_number hwf hft] at htree
      rw [htree]
      cases hstored : fields.lookup f.number with
      | none =>
          exact tidyField_defaultTree (hwf.2.2 f hft) (hsound.target hft).wellFormed
            (huncrossed.target hft).noCrossedNames
      | some v =>
          exact tidyFields_written t fields hsound huncrossed hconf.1 f.number v hstored f hft
            (MessageType.field?_number hwf hft)

theorem tidyItems_written : ∀ (type : FieldType) (vs : List Value), s.Sound (type.target s) →
    s.Uncrossed (type.target s) → valuesConform s type vs = true →
    tidyItems o s type (Tree.itemsWritten (listTrees s type vs)) = true
  | _, [], _, _, _ => rfl
  | type, v :: rest, hsound, huncrossed, hconf => by
      simp only [valuesConform, Bool.and_eq_true] at hconf
      rw [listTrees, Tree.itemsWritten, tidyItems,
        tidyValue_written type v hsound huncrossed hconf.1,
        tidyItems_written type rest hsound huncrossed hconf.2]
      rfl

theorem tidyEntries_written (key : ScalarKind) : ∀ (type : FieldType)
    (entries : List (MapKey × Value)), s.Sound (type.target s) → s.Uncrossed (type.target s) →
    entriesConform s key type entries = true → ∀ e ∈ entries,
    key.keyOfText? (Leaf.scalar e.1.toScalar).key = some e.1 ∧
      tidyValue o s type (e.2.toTree s type).written = true
  | _, [], _, _, _, _, he => absurd he (List.not_mem_nil)
  | type, (k, v) :: rest, hsound, huncrossed, hconf, e, he => by
      simp only [entriesConform, Bool.and_eq_true] at hconf
      rcases List.mem_cons.mp he with rfl | he
      · exact ⟨ScalarKind.keyOfText?_key hconf.1.1,
          tidyValue_written type v hsound huncrossed hconf.1.2⟩
      · exact tidyEntries_written key type rest hsound huncrossed hconf.2 e he

theorem tidyFields_written : ∀ (t : MessageType) (fields : List (Nat × FieldValue)),
    s.Sound t → s.Uncrossed t → fieldsConform s t fields = true →
    ∀ n v, fields.lookup n = some v → ∀ f ∈ t.fields, t.field? n = some f →
    tidyField o s f.shape (v.toTree s f.shape.valueType).written = true
  | t, (k, v') :: rest, hsound, huncrossed, hconf, n, v, hstored, f, hf, hfield => by
      simp only [fieldsConform, Bool.and_eq_true] at hconf
      rw [lookup_cons_ite] at hstored
      split at hstored
      · rename_i hk
        obtain rfl := Option.some.inj hstored
        subst hk
        have hvalue : v'.conforms s f.shape = true := by
          simpa [hfield] using hconf.1
        exact tidyField_written f.shape v' (hsound.target hf) (huncrossed.target hf) hvalue
      · exact tidyFields_written t rest hsound huncrossed hconf.2 n v hstored f hf hfield
end

theorem isTidy_written {t : MessageType} {m : Message} (hsound : s.Sound t)
    (huncrossed : s.Uncrossed t) (hconf : m.conforms s t = true) :
    (m.toTree s t).written.isTidy o s t = true := by
  obtain ⟨members, hwritten, htidy⟩ := tidyMembers_written o s t m hsound huncrossed hconf
  rw [hwritten]
  exact htidy

end Written

end GrpcContract
