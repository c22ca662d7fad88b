import GrpcContract.Codec
import GrpcContract.Proofs.MessageJson
import GrpcContract.Schema.Declare
import Mathlib

/-!
# Round trip of the codec

The text of a message is read back, with or without leniency about what is not declared, as the
message spelled out, and so as one that reads like the completed message.
-/

namespace GrpcContract

open Json

/-- Whether no type that a message of the type may hold crosses names. -/
def Schema.Uncrossed (s : Schema) (t : MessageType) : Prop :=
  ∀ u, s.Uses t u → u.NoCrossedNames

theorem Schema.uncrossed_of_noCrossedNames {s : Schema} {t : MessageType} (ht : t.NoCrossedNames)
    (hmessages : ∀ u ∈ s.messages, u.NoCrossedNames) : s.Uncrossed t :=
  forall_uses ht hmessages fun _ _ hf => absurd hf List.not_mem_nil

theorem Schema.Uncrossed.noCrossedNames {s : Schema} {t : MessageType}
    (huncrossed : s.Uncrossed t) : t.NoCrossedNames :=
  huncrossed t (.refl t)

theorem Schema.Uncrossed.target {s : Schema} {t : MessageType} (huncrossed : s.Uncrossed t)
    {f : Field} (hf : f ∈ t.fields) : s.Uncrossed (f.shape.valueType.target s) :=
  fun u huses => huncrossed u (.step hf huses)

/-- The shown fields of a typed message have no two members of one group. -/
theorem spread_shown {s : Schema} {t : MessageType} (hwf : t.WellFormed)
    {fields : List (Nat × FieldValue)} {unknown : List (Nat × WireValue)}
    (hconf : (Message.mk fields unknown).conforms s t = true) : Spread (t.shown fields) := by
  simp only [Message.conforms, Bool.and_eq_true, decide_eq_true_eq] at hconf
  have hstored (f : Field) (hf : f ∈ t.shown fields) (hgroup : f.oneof? ≠ none) :
      f ∈ t.fields ∧ (fields.lookup f.number).isSome = true := by
    obtain ⟨hmem, hnone | hholds⟩ := MessageType.mem_shown.mp hf
    · exact absurd hnone hgroup
    · obtain ⟨v, hv, -⟩ := (Option.any_eq_true ..).mp hholds
      exact ⟨hmem, by rw [hv]; rfl⟩
  refine (MessageType.pairwise_shown hwf fields).imp_of_mem ?_
  intro f g hf hg hlt
  refine ⟨hlt, ?_⟩
  by_cases hgroup : g.oneof? = none
  · exact Or.inl hgroup
  · refine Or.inr fun heq => ?_
    obtain ⟨hgt, hgs⟩ := hstored g hg hgroup
    obtain ⟨hft, hfs⟩ := hstored f hf (heq ▸ hgroup)
    have hsame := hconf.2 f hft g hgt (Option.isSome_iff_ne_none.mpr (heq ▸ hgroup)) heq.symm
      hfs hgs
    rw [hsame] at hlt
    exact absurd hlt (Nat.lt_irrefl _)

theorem fieldOfJson_defaultTree (o : CodecOptions) {s : Schema} {f : Field}
    (hwf : f.shape.WellFormed) (htarget : (f.shape.valueType.target s).WellFormed)
    (hnames : (f.shape.valueType.target s).NoCrossedNames)
    (hback : (f.defaultTree s).floatsReadBack = true) :
    fieldOfJson o s f.shape (f.defaultTree s).written = .ok (some (f.spelledDefault s)) := by
  rcases Field.default_cases hwf with ⟨name, presence, default?, hshape, hdefault⟩ | hplain
  · rw [hshape] at htarget hnames
    simp only [Field.defaultTree, hdefault, hshape, Shape.valueType, FieldType.target]
      at hback htarget hnames ⊢
    obtain ⟨members, hwritten, hread⟩ := membersOfJson_defaultTree o s htarget hnames hback
    simp only [hwritten, fieldOfJson, hread, Field.spelledDefault, hdefault, hshape,
      Shape.valueType, FieldType.target]
    rfl
  · rw [Field.defaultTree_eq_bareTree hplain.1] at hback ⊢
    rw [Field.spelledDefault_eq_default hplain.1]
    exact fieldOfJson_bareTree o s hwf hback

variable (o : CodecOptions) (s : Schema)

mutual
theorem valueOfJson_written : ∀ (type : FieldType) (v : Value), type.WellFormed →
    s.Sound (type.target s) → s.Uncrossed (type.target s) → v.conforms s type = true →
    (v.toTree s type).floatsReadBack = true →
    valueOfJson o s type (v.toTree s type).written = .ok (some (v.spelled s type))
  | type, .scalar x, hwf, _, _, hconf, hback => by
      rw [valueOfJson_of_ne_message o s (ne_message_of_admits hconf)]
      exact leafOfJson_written o hwf hconf hback
  | .message name, .message m, _, hsound, huncrossed, hconf, hback => by
      obtain ⟨members, hwritten, hread⟩ :=
        membersOfJson_written (s.messageType name) m hsound huncrossed hconf hback
      simp only [Value.toTree, FieldType.target, hwritten, valueOfJson, hread, Value.spelled]
      rfl
  | .scalar _, .message _, _, _, _, hconf, _ => absurd hconf (by simp [Value.conforms])
  | .enum _, .message _, _, _, _, hconf, _ => absurd hconf (by simp [Value.conforms])

theorem fieldOfJson_written : ∀ (shape : Shape) (v : FieldValue), shape.WellFormed →
    s.Sound (shape.valueType.target s) → s.Uncrossed (shape.valueType.target s) →
    v.conforms s shape = true → (v.toTree s shape.valueType).floatsReadBack = true →
    fieldOfJson o s shape (v.toTree s shape.valueType).written =
      .ok (some (v.spelled s shape.valueType))
  | .single type presence default?, .single (.scalar x), hwf, _, _, hconf, hback =>
      fieldOfJson_single_of_ne_message o s (ne_message_of_admits hconf) presence default?
        (leafOfJson_written o hwf.1 hconf hback)
  | .single (.message name) _ _, .single (.message m), _, hsound, huncrossed, hconf, hback => by
      obtain ⟨members, hwritten, hread⟩ :=
        membersOfJson_written (s.messageType name) m hsound huncrossed hconf hback
      simp only [FieldValue.toTree, Value.toTree, Shape.valueType, FieldType.target, hwritten,
        fieldOfJson, hread, FieldValue.spelled, Value.spelled]
      rfl
  | .repeated type _, .list vs, hwf, hsound, huncrossed, hconf, hback => by
      have hread := itemsOfJson_written type vs hwf hsound huncrossed hconf hback
      simp only [FieldValue.toTree, Shape.valueType, Tree.written, fieldOfJson, hread,
        FieldValue.spelled]
      rfl
  | .map key value, .map entries, hwf, hsound, huncrossed, hconf, hback => by
      simp only [FieldValue.conforms, Bool.and_eq_true, decide_eq_true_eq] at hconf
      simp only [FieldValue.toTree, Shape.valueType, Tree.floatsReadBack, mergeSort_entryTrees,
        entriesReadBack_map] at hback
      have hmem (e : MapKey × Value) (he : e ∈ entries.mergeSort entryLe) : e ∈ entries :=
        (List.mergeSort_perm entries entryLe).mem_iff.mp he
      have hentry := entriesOfJson_written key value entries hwf.2 hsound huncrossed hconf.1
        fun e he => hback e ((List.mergeSort_perm entries entryLe).mem_iff.mpr he)
      have hread := entriesOfJson_append (o := o) (s := s)
        (((List.mergeSort_perm entries entryLe).symm.pairwise_iff fun h => h.symm).mp hconf.2)
        (fun e he => (hentry e (hmem e he)).1) (fun e he => (hentry e (hmem e he)).2)
        (fun _ _ _ hd => absurd hd (List.not_mem_nil))
      simp only [FieldValue.toTree, Shape.valueType, Tree.written, mergeSort_entryTrees,
        entriesWritten_map, fieldOfJson, hread, FieldValue.spelled, mergeSort_spelledEntries]
      rfl
  | .single (.scalar _) _ _, .single (.message _), _, _, _, hconf, _ =>
      absurd hconf (by simp [FieldValue.conforms, Value.conforms])
  | .single (.enum _) _ _, .single (.message _), _, _, _, hconf, _ =>
      absurd hconf (by simp [FieldValue.conforms, Value.conforms])
  | .single .., .list _, _, _, _, hconf, _ => absurd hconf (by simp [FieldValue.conforms])
  | .single .., .map _, _, _, _, hconf, _ => absurd hconf (by simp [FieldValue.conforms])
  | .repeated .., .single _, _, _, _, hconf, _ => absurd hconf (by simp [FieldValue.conforms])
  | .repeated .., .map _, _, _, _, hconf, _ => absurd hconf (by simp [FieldValue.conforms])
  | .map .., .single _, _, _, _, hconf, _ => absurd hconf (by simp [FieldValue.conforms])
  | .map .., .list _, _, _, _, hconf, _ => absurd hconf (by simp [FieldValue.conforms])

/-- A typed message is read from what its tree is written as, spelled out. -/
theorem membersOfJson_written : ∀ (t : MessageType) (m : Message), s.Sound t → s.Uncrossed t →
    m.conforms s t = true → (m.toTree s t).floatsReadBack = true →
    ∃ members, (m.toTree s t).written = .object members ∧
      membersOfJson o s t .empty members = .ok (m.spelled s t)
  | t, .mk fields unknown, hsound, huncrossed, hconf, hback => by
      have hwf := hsound.wellFormed
      have hspread := spread_shown hwf hconf
      simp only [Message.conforms, Bool.and_eq_true] at hconf
      have hmem : ∀ f ∈ t.shown fields, f ∈ t.fields :=
        fun f hf => (MessageType.mem_shown.mp hf).1
      rw [Message.toTree, MessageType.assemble_eq] at hback ⊢
      have hleaves := (fieldsReadBack_map Field.name _ _).mp hback
      refine ⟨_, rfl, ?_⟩
      rw [fieldsWritten_map Field.name]
      refine membersOfJson_append hwf huncrossed.noCrossedNames hmem hspread ?_ (by simp)
        fun f _ => groupFree_nil t f
      intro f hf
      have hft := hmem f hf
      have hleaf := hleaves f hf
      have htree := lookup_fieldTrees s t fields f.number
      have hspelled := lookup_spelledFields s t fields f.number
      rw [MessageType.typeOf_number hwf hft] at htree hspelled
      rw [htree] at hleaf
      rw [htree, hspelled]
      cases hstored : fields.lookup f.number with
      | none =>
          rw [hstored] at hleaf
          exact fieldOfJson_defaultTree o (hwf.2.2 f hft) (hsound.target hft).wellFormed
            (huncrossed.target hft).noCrossedNames hleaf
      | some v =>
          rw [hstored] at hleaf
          exact fieldsOfJson_written t fields hsound huncrossed hconf.1 f.number v hstored f hft
            (MessageType.field?_number hwf hft) hleaf

theorem itemsOfJson_written : ∀ (type : FieldType) (vs : List Value), type.WellFormed →
    s.Sound (type.target s) → s.Uncrossed (type.target s) → valuesConform s type vs = true →
    Tree.itemsReadBack (listTrees s type vs) = true →
    itemsOfJson o s type (Tree.itemsWritten (listTrees s type vs)) = .ok (spelledValues s type vs)
  | _, [], _, _, _, _, _ => rfl
  | type, v :: rest, hwf, hsound, huncrossed, hconf, hback => by
      simp only [valuesConform, Bool.and_eq_true] at hconf
      simp only [listTrees, Tree.itemsReadBack, Bool.and_eq_true] at hback
      have hhead := valueOfJson_written type v hwf hsound huncrossed hconf.1 hback.1
      have hrest := itemsOfJson_written type rest hwf hsound huncrossed hconf.2 hback.2
      simp only [listTrees, Tree.itemsWritten, itemsOfJson, hhead, hrest, spelledValues]
      rfl

theorem entriesOfJson_written (key : ScalarKind) : ∀ (type : FieldType)
    (entries : List (MapKey × Value)), type.WellFormed → s.Sound (type.target s) →
    s.Uncrossed (type.target s) → entriesConform s key type entries = true →
    (∀ e ∈ entries, (e.2.toTree s type).floatsReadBack = true) → ∀ e ∈ entries,
    key.keyOfText? (Leaf.scalar e.1.toScalar).key = some e.1 ∧
      valueOfJson o s type (e.2.toTree s type).written = .ok (some (e.2.spelled s type))
  | _, [], _, _, _, _, _, _, he => absurd he (List.not_mem_nil)
  | type, (k, v) :: rest, hwf, hsound, huncrossed, hconf, hback, e, he => by
      simp only [entriesConform, Bool.and_eq_true] at hconf
      rcases List.mem_cons.mp he with rfl | he
      · exact ⟨ScalarKind.keyOfText?_key hconf.1.1,
          valueOfJson_written type v hwf hsound huncrossed hconf.1.2 (hback (k, v) (by simp))⟩
      · exact entriesOfJson_written key type rest hwf hsound huncrossed hconf.2
          (fun e he => hback e (by simp [he])) e he

theorem fieldsOfJson_written : ∀ (t : MessageType) (fields : List (Nat × FieldValue)),
    s.Sound t → s.Uncrossed t → fieldsConform s t fields = true →
    ∀ n v, fields.lookup n = some v → ∀ f ∈ t.fields, t.field? n = some f →
    (v.toTree s f.shape.valueType).floatsReadBack = true →
    fieldOfJson o s f.shape (v.toTree s f.shape.valueType).written =
      .ok (some (v.spelled s f.shape.valueType))
  | t, (k, v') :: rest, hsound, huncrossed, hconf, n, v, hstored, f, hf, hfield, hback => by
      simp only [fieldsConform, Bool.and_eq_true] at hconf
      rw [lookup_cons_ite] at hstored
      split at hstored
      · rename_i hk
        obtain rfl := Option.some.inj hstored
        subst hk
        have hvalue : v'.conforms s f.shape = true := by
          simpa [hfield] using hconf.1
        exact fieldOfJson_written f.shape v' (hsound.wellFormed.2.2 f hf) (hsound.target hf)
          (huncrossed.target hf) hvalue hback
      · exact fieldsOfJson_written t rest hsound huncrossed hconf.2 n v hstored f hf hfield hback
end

/-- The codec reads the text of a message back as a message that reads like the completed one, and
like the message itself where nothing was left to set. -/
theorem decode_render_encode (c : Codec) (t : MessageType) (m : Message)
    (hsound : c.schema.Sound t) (huncrossed : c.schema.Uncrossed t)
    (hconf : m.conforms c.schema t = true) (hdepth : (c.encode t m).depth ≤ Json.maxDepth)
    (hback : (c.encode t m).floatsReadBack = true) :
    ∃ m', c.decode t (c.encode t m).render = .ok m' ∧
      m'.Agree c.schema t (m.complete c.schema t) ∧
      (m.isComplete c.schema t = true → m'.Agree c.schema t m) := by
  have hparse := Tree.parse?_render hdepth
  obtain ⟨members, hwritten, hread⟩ :=
    membersOfJson_written c.options c.schema t m hsound huncrossed hconf hback
  have hagree := m.agree_spelled c.schema t hsound hconf
  refine ⟨m.spelled c.schema t, ?_, hagree, ?_⟩
  · have hwritten' : (c.encode t m).written = .object members := hwritten
    simp only [Codec.decode, hparse, hwritten', Codec.decodeJson, Message.ofJson, hread]
    rfl
  · intro hdone
    rw [m.complete_eq_self c.schema t hdone] at hagree
    exact hagree

namespace Sample

/-- A recursive type of which it is recorded whether each single field is set. -/
def link : MessageType :=
  ⟨"Link", [
    .declare "size" 1 (.single (.scalar .int32) .explicit (some (.int32 42))),
    .declare "ratio" 2 (.single (.scalar .double) .explicit (some (.double ⟨0x3FE0000000000000⟩))),
    .declare "next" 3 (.single (.message "Link") .explicit none),
    .declare "marks" 4 (.map .string (.scalar .bool))]⟩

def links : Codec := ⟨⟨[link], []⟩, {}⟩

theorem sound_link : links.schema.Sound link :=
  Schema.sound_of_wellFormed (by decide) (by decide)

theorem uncrossed_link : links.schema.Uncrossed link :=
  Schema.uncrossed_of_noCrossedNames (by decide) (by decide)

/-- A link with an empty one after it. -/
def chain : Message :=
  .mk [(1, .single (.scalar (.int32 (-7)))), (3, .single (.message .empty)),
    (4, .map [(.string "b", .scalar (.bool true)), (.string "a", .scalar (.bool false))])] []

theorem encode_chain :
    links.encode link chain = .message [
      ("size", .leaf (.scalar (.int32 (-7)))),
      ("ratio", .leaf (.scalar (.double ⟨0x3FE0000000000000⟩))),
      ("next", .message [
        ("size", .leaf (.scalar (.int32 42))),
        ("ratio", .leaf (.scalar (.double ⟨0x3FE0000000000000⟩))),
        ("next", .message [
          ("size", .leaf (.scalar (.int32 42))),
          ("ratio", .leaf (.scalar (.double ⟨0x3FE0000000000000⟩))),
          ("next", .message []),
          ("marks", .map [])]),
        ("marks", .map [])]),
      ("marks", .map [
        (.scalar (.string "a"), .leaf (.scalar (.bool false))),
        (.scalar (.string "b"), .leaf (.scalar (.bool true)))])] := by
  cbv

theorem decode_render_encode_chain :
    chain.isComplete links.schema link = false ∧
    ∃ m', links.decode link (links.encode link chain).render = .ok m' ∧
      m'.Agree links.schema link (chain.complete links.schema link) ∧
      (chain.isComplete links.schema link = true → m'.Agree links.schema link chain) := by
  have hconf : chain.conforms links.schema link = true := by decide +kernel
  have hdepth : (links.encode link chain).depth ≤ Json.maxDepth := by
    rw [encode_chain]
    decide +kernel
  have hback : (links.encode link chain).floatsReadBack = true := by
    rw [encode_chain]
    decide +kernel
  exact ⟨by decide +kernel,
    decode_render_encode links link chain sound_link uncrossed_link hconf hdepth hback⟩

end Sample

end GrpcContract
