import GrpcContract.Proofs.SteadyTexts
import GrpcContract.Proofs.TextDepth
import GrpcContract.Proofs.TidyTrees

/-!
# Keys of fields

A message is written with the declared names of its fields for keys, and a key is read as a JSON
name before it is read as a declared name. A field whose names are its own is read from its own
member and from no other, so its value stays with it, whatever becomes of the other fields.
-/

namespace GrpcContract

open Json

/-- In messages that read alike the same fields are set. -/
theorem FieldValue.Agree.has_eq {s : Schema} {name : String} {m k : Message}
    (hagree : FieldValue.Agree s (.message name) (.single (.message m)) (.single (.message k))) :
    ∀ f ∈ (s.messageType name).fields, m.has f = k.has f := by
  obtain ⟨hvalue⟩ := hagree
  cases hvalue with
  | refl => exact fun f _ => Eq.refl _
  | message hset hread => exact hset

/-! ### Keys -/

namespace MessageType

variable {t : MessageType} {f : Field}

/-- Whether neither name of a field is the other name of another field. -/
def OwnNames (t : MessageType) (f : Field) : Prop :=
  ∀ g ∈ t.fields, g.jsonName = f.name ∨ g.name = f.jsonName → g = f

instance : Decidable (t.OwnNames f) :=
  inferInstanceAs (Decidable (∀ g ∈ t.fields, g.jsonName = f.name ∨ g.name = f.jsonName → g = f))

theorem name_of_keyed? {key : String} (hkeyed : t.keyed? key = some f) :
    f.jsonName = key ∨ f.name = key := by
  unfold keyed? at hkeyed
  cases hjson : t.fields.find? (·.jsonName == key) with
  | some g =>
      have hbeq := List.find?_some hjson
      rw [hjson] at hkeyed
      obtain rfl := Option.some.inj hkeyed
      exact .inl (eq_of_beq hbeq)
  | none =>
      rw [hjson] at hkeyed
      have hnamed : t.named? key = some f := hkeyed
      have hbeq := List.find?_some hnamed
      exact .inr (eq_of_beq hbeq)

theorem keyed?_of_ownNames (hwf : t.WellFormed) (hf : f ∈ t.fields) (hnames : t.OwnNames f) :
    t.keyed? f.name = some f :=
  keyed?_own_name hwf hf fun g hg hname => hnames g hg (.inl hname)

/-- No declared name but its own means a field that has names of its own. -/
theorem eq_of_keyed?_name (hwf : t.WellFormed) (hnames : t.OwnNames f) {g : Field}
    (hg : g ∈ t.fields) (hkeyed : t.keyed? g.name = some f) : g = f := by
  rcases name_of_keyed? hkeyed with hjson | hname
  · exact hnames g hg (.inr hjson.symm)
  · exact eq_of_pairwise_of_key hwf.2.1 hg (mem_of_keyed? hkeyed) hname.symm

end MessageType

/-! ### What was given last -/

/-- Of the values that were given to a field the last one is stored. -/
theorem lookup_insertAll {α : Type} (given fields : List (Nat × α)) (n : Nat) :
    (insertAll given fields).lookup n = (given.reverse.lookup n).or (fields.lookup n) := by
  induction given generalizing fields with
  | nil => rfl
  | cons field given ih =>
      obtain ⟨k, v⟩ := field
      rw [insertAll_cons, ih, List.reverse_cons, List.lookup_append, lookup_insertNumbered,
        Option.or_assoc]
      by_cases hn : n = k
      · simp [hn]
      · simp [lookup_cons_ite, hn]

theorem mem_of_lookup_insertAll {α : Type} {given : List (Nat × α)} {n : Nat} {v : α}
    (hstored : (insertAll given []).lookup n = some v) : (n, v) ∈ given := by
  rw [lookup_insertAll, List.lookup_nil, Option.or_none] at hstored
  exact List.mem_reverse.mp (mem_of_lookup hstored)

/-- A field that is given one value only has that value. -/
theorem lookup_insertAll_of_mem {α : Type} {given : List (Nat × α)} {n : Nat} {v : α}
    (hmem : (n, v) ∈ given) (honly : ∀ w, (n, w) ∈ given → w = v) :
    (insertAll given []).lookup n = some v := by
  cases hstored : (insertAll given []).lookup n with
  | some w => rw [honly w (mem_of_lookup_insertAll hstored)]
  | none =>
      rw [lookup_insertAll, List.lookup_nil, Option.or_none, List.lookup_eq_none_iff] at hstored
      have hne := hstored (n, v) (List.mem_reverse.mpr hmem)
      simp at hne

/-! ### Members of a message that was written -/

theorem Json.limitMembers_eq_map (n : Nat) (members : List (String × Json)) :
    limitMembers n members = members.map fun member => (member.1, member.2.limitDepth n) := by
  induction members with
  | nil => rfl
  | cons member members ih => simp only [limitMembers, List.map_cons, ih]

/-- What is left for a field of the text of a message that nests too deeply. -/
def Message.fieldJson (s : Schema) (m : Message) (f : Field) : Json :=
  (m.fieldTree s f).written.limitDepth (maxDepth - 1)

section Decoding

variable {c : Codec} {t : MessageType} {m m' : Message}

/-- A message is read from the members of the fields that are shown. -/
theorem Codec.membersOfJson_of_decode (hwf : t.WellFormed)
    (hread : c.decode t (c.encode t m).render = .ok m') :
    membersOfJson c.options c.schema t .empty
      ((t.shown m.fields).map fun f => (f.name, m.fieldJson c.schema f)) = .ok m' := by
  rw [decode, Tree.parse?_render_limited] at hread
  have hlimited := Except.ok_of_mapError hread
  have hmembers : (c.encode t m).written.limitDepth maxDepth =
      .object ((t.shown m.fields).map fun f => (f.name, m.fieldJson c.schema f)) := by
    have hmax : maxDepth = maxDepth - 1 + 1 := rfl
    rw [encode, m.toTree_eq hwf, Tree.written, fieldsWritten_map Field.name, hmax, limitDepth,
      limitMembers_eq_map, List.map_map]
    rfl
  rw [hmembers] at hlimited
  exact hlimited

/-- What a message that was read stores for fields is given by the members of the text. -/
theorem Codec.get?_of_decode (hwf : t.WellFormed)
    (hread : c.decode t (c.encode t m).render = .ok m') (n : Nat) :
    m'.get? n = (insertAll (((t.shown m.fields).map fun f =>
      (f.name, m.fieldJson c.schema f)).filterMap (t.given? c.options c.schema)) []).lookup n := by
  have hmembers := membersOfJson_of_decode hwf hread
  have hnone : t.HoldsGroups [] := by simp [MessageType.HoldsGroups]
  rw [membersOfJson_eq_insertAll hwf hnone hmembers]
  rfl

/-- What a field has comes from the member of a field that means it. -/
theorem Codec.exists_member_of_decode (hwf : t.WellFormed)
    (hread : c.decode t (c.encode t m).render = .ok m') {g : Field} (hg : g ∈ t.fields)
    {w : FieldValue} (hstored : m'.get? g.number = some w) :
    ∃ h ∈ t.shown m.fields, t.keyed? h.name = some g ∧
      fieldOfJson c.options c.schema g.shape (m.fieldJson c.schema h) = .ok (some w) := by
  rw [get?_of_decode hwf hread] at hstored
  have hgiven := mem_of_lookup_insertAll hstored
  rw [List.filterMap_map, List.mem_filterMap] at hgiven
  obtain ⟨h, hh, hmember⟩ := hgiven
  obtain ⟨g', hkeyed, hnumber, hvalue⟩ := MessageType.given?_eq_some_iff.mp hmember
  obtain rfl := MessageType.eq_of_number hwf (MessageType.mem_of_keyed? hkeyed) hg hnumber
  exact ⟨h, hh, hkeyed, hvalue⟩

/-- A field with names of its own has what its member is read as. -/
theorem Codec.get?_of_ownNames (hwf : t.WellFormed)
    (hread : c.decode t (c.encode t m).render = .ok m') {f : Field} (hf : f ∈ t.shown m.fields)
    (hnames : t.OwnNames f) {v : FieldValue}
    (hvalue : fieldOfJson c.options c.schema f.shape (m.fieldJson c.schema f) = .ok (some v)) :
    m'.get? f.number = some v := by
  have hft := (MessageType.mem_shown.mp hf).1
  have hkeyed := MessageType.keyed?_of_ownNames hwf hft hnames
  rw [get?_of_decode hwf hread]
  apply lookup_insertAll_of_mem
  · rw [List.filterMap_map, List.mem_filterMap]
    exact ⟨f, hf, MessageType.given?_eq_some_iff.mpr ⟨f, hkeyed, rfl, hvalue⟩⟩
  · intro w hw
    rw [List.filterMap_map, List.mem_filterMap] at hw
    obtain ⟨h, hh, hmember⟩ := hw
    obtain ⟨g, hkeyed', hnumber, hvalue'⟩ := MessageType.given?_eq_some_iff.mp hmember
    obtain rfl := MessageType.eq_of_number hwf (MessageType.mem_of_keyed? hkeyed') hft hnumber
    have hht := (MessageType.mem_shown.mp hh).1
    obtain rfl := MessageType.eq_of_keyed?_name hwf hnames hht hkeyed'
    exact (Option.some.inj (Except.ok.inj (hvalue.symm.trans hvalue'))).symm

/-- The member of a field that is set is read as its value spelled out, if the text was read. -/
theorem Codec.fieldOfJson_of_decode (hsound : c.schema.Sound t)
    (hread : c.decode t (c.encode t m).render = .ok m') {f : Field} (hf : f ∈ t.shown m.fields)
    (hnames : t.OwnNames f) (hbelow : c.schema.Uncrossed (f.shape.valueType.target c.schema))
    {v : FieldValue} (hstored : m.get? f.number = some v)
    (hconf : v.conforms c.schema f.shape = true)
    (hback : (v.toTree c.schema f.shape.valueType).floatsReadBack = true) :
    fieldOfJson c.options c.schema f.shape (m.fieldJson c.schema f) =
      .ok (some (v.spelled c.schema f.shape.valueType)) := by
  have hwf := hsound.wellFormed
  have hft := (MessageType.mem_shown.mp hf).1
  have htarget := hsound.target hft
  have hjson : m.fieldJson c.schema f =
      (v.toTree c.schema f.shape.valueType).written.limitDepth (maxDepth - 1) := by
    rw [Message.fieldJson, Message.fieldTree, hstored]
    rfl
  obtain ⟨v?, hany⟩ : ∃ v?, fieldOfJson c.options c.schema f.shape (m.fieldJson c.schema f) =
      .ok v? := by
    have hreads := ((membersOfJson_ok_iff hwf).mp ⟨m', membersOfJson_of_decode hwf hread⟩).1
    have hmember := hreads (f.name, m.fieldJson c.schema f) (List.mem_map.mpr ⟨f, hf, rfl⟩)
    rw [MessageType.Reads, MessageType.keyed?_of_ownNames hwf hft hnames] at hmember
    exact hmember
  -- What could be read does not nest too deeply, so nothing of it was cut off.
  have htidy := tidyField_written c.options c.schema f.shape v htarget hbelow hconf
  rw [hjson] at hany ⊢
  have hreadable := isReadable_of_fieldOfJson f.shape _
    (fun _ => tidyField_limitDepth f.shape _ (maxDepth - 1) htidy) hany
  rw [Tree.isReadable_limitDepth, decide_eq_true_eq] at hreadable
  rw [Tree.limitDepth_written _ _ hreadable]
  exact fieldOfJson_written c.options c.schema f.shape v (hwf.2.2 f hft) htarget hbelow hconf hback

end Decoding

/-- A field with names of its own is written under a key that is read as that field, and as that
of no other field. So if it is set and the text can be read, it is set in the message that was
read and reads there as the completed value: as the value itself where nothing was left to set.
Whatever another field has was read from the member of another field. -/
theorem Codec.decode_encode_field (c : Codec) (t : MessageType) (m m' : Message) (f : Field)
    (hsound : c.schema.Sound t) (hf : f ∈ t.fields) (hnames : t.OwnNames f)
    (hbelow : c.schema.Uncrossed (f.shape.valueType.target c.schema))
    (hconf : m.conforms c.schema t = true) (hset : m.has f = true)
    (hback : ((m.get f).toTree c.schema f.shape.valueType).floatsReadBack = true)
    (hread : c.decode t (c.encode t m).render = .ok m') :
    t.keyed? f.name = some f ∧ (∀ g ∈ t.fields, t.keyed? g.name = some f → g = f) ∧
      m'.has f = true ∧
      FieldValue.Agree c.schema f.shape.valueType (m'.get f)
        ((m.get f).complete c.schema f.shape.valueType) ∧
      ((m.get f).isComplete c.schema f.shape.valueType = true →
        FieldValue.Agree c.schema f.shape.valueType (m'.get f) (m.get f)) ∧
      ∀ g ∈ t.fields, g ≠ f → ∀ w, m'.get? g.number = some w →
        ∃ h ∈ t.shown m.fields, h ≠ f ∧ t.keyed? h.name = some g ∧
          fieldOfJson c.options c.schema g.shape (m.fieldJson c.schema h) = .ok (some w) := by
  have hwf := hsound.wellFormed
  obtain ⟨v, hstored, hholds⟩ := (Option.any_eq_true ..).mp hset
  have hget : m.get f = v := by
    rw [Message.get, hstored, Option.getD_some]
  rw [hget] at hback ⊢
  have hvalue := Message.conforms_of_get? hwf hconf hf hstored
  have hshown : f ∈ t.shown m.fields := MessageType.mem_shown.mpr ⟨hf, .inr hset⟩
  have hfield := fieldOfJson_of_decode hsound hread hshown hnames hbelow hstored hvalue hback
  have hthere := get?_of_ownNames hwf hread hshown hnames hfield
  have hget' : m'.get f = v.spelled c.schema f.shape.valueType := by
    rw [Message.get, hthere, Option.getD_some]
  have hagree := v.agree_spelled c.schema f.shape (hsound.target hf) hvalue
  rw [hget']
  refine ⟨MessageType.keyed?_of_ownNames hwf hf hnames, ?_, ?_, hagree, ?_, ?_⟩
  · intro g hg hkeyed
    exact MessageType.eq_of_keyed?_name hwf hnames hg hkeyed
  · rw [Message.has, hthere, Option.any_some, f.holds_spelled]
    exact hholds
  · intro hdone
    rw [v.complete_eq_self c.schema f.shape.valueType hdone] at hagree
    exact hagree
  · intro g hg hne w hw
    obtain ⟨h, hh, hkeyed, hgiven⟩ := exists_member_of_decode hwf hread hg hw
    refine ⟨h, hh, ?_, hkeyed, hgiven⟩
    rintro rfl
    rw [MessageType.keyed?_of_ownNames hwf hf hnames] at hkeyed
    exact hne (Option.some.inj hkeyed).symm

namespace Sample

/-- A type that crosses names, with a field apart from them. -/
def posting : MessageType :=
  ⟨"Posting", crossing.fields ++ [⟨"note", 3, "@note", .one (.message nested.name)⟩]⟩

def postings : Codec := ⟨⟨[posting, nested], []⟩, {}⟩

def posted : Message :=
  .mk (crossed.fields ++ [(3, .single (.message (.mk [(1, .single (.scalar (.int32 7)))] [])))]) []

theorem decode_posted :
    postings.decode posting (postings.encode posting posted).render =
      .ok (.mk [(2, .single (.scalar (.int32 2))), (3, .single (.message (.mk [
        (1, .single (.scalar (.int32 7))), (2, .single (.scalar (.string ""))), (3, .map [])]
          [])))] []) := by
  have hdepth : (postings.encode posting posted).depth ≤ maxDepth := by cbv
  have hwritten : (postings.encode posting posted).written =
      .object [("b", .number (.int 1)), ("a", .number (.int 2)), ("note", .object [
        ("id", .number (.int 7)), ("label", .string ""), ("scores", .object [])])] := by
    cbv
  rw [Codec.decode_of_parse? (Tree.parse?_render hdepth), hwritten]
  rfl

/-- The note stays with the message, though its type crosses the names of other fields. -/
theorem decode_encode_posted :
    ∃ note ∈ posting.fields, ∃ m', posting.OwnNames note ∧ posted.has note = true ∧
      postings.decode posting (postings.encode posting posted).render = .ok m' ∧
      posting.keyed? note.name = some note ∧ m'.has note = true ∧
      FieldValue.Agree postings.schema (.message nested.name) (m'.get note) (posted.get note) := by
  let note : Field := ⟨"note", 3, "@note", .one (.message nested.name)⟩
  have hsound : postings.schema.Sound posting :=
    Schema.sound_of_wellFormed (by decide +kernel) (by decide +kernel)
  have hnote : note ∈ posting.fields := by decide +kernel
  have hnames : posting.OwnNames note := by decide +kernel
  have hbelow : postings.schema.Uncrossed (note.shape.valueType.target postings.schema) := by
    have htarget : note.shape.valueType.target postings.schema = nested := by decide +kernel
    rw [htarget]
    intro u huses
    cases huses with
    | refl => decide +kernel
    | step hf huses =>
        have hscalar : ∀ f ∈ nested.fields,
            f.shape.valueType.target postings.schema = ⟨"", []⟩ := by
          decide +kernel
        rw [hscalar _ hf] at huses
        cases huses with
        | refl => decide
        | step hf huses => cases hf
  have hset : posted.has note = true := by decide +kernel
  obtain ⟨hkeyed, -, hhas, -, hagree, -⟩ := Codec.decode_encode_field postings posting posted _ note
    hsound hnote hnames hbelow (by decide +kernel) hset (by cbv) decode_posted
  exact ⟨note, hnote, _, hnames, hset, decode_posted, hkeyed, hhas, hagree (by decide +kernel)⟩

def child : Field := .declare "child" 2 (.one (.message node.name))

/-- A node with a child of which nothing is set. -/
def parent : Message :=
  .mk [(2, .single (.message .empty))] []

/-- The child of the child is spelled out, so it is set where the message is read. -/
theorem exists_decode_parent :
    ∃ m', nodes.decode node (nodes.encode node parent).render = .ok m' ∧
      ¬ FieldValue.Agree nodes.schema (.message node.name) (m'.get child) (parent.get child) := by
  have hsound : nodes.schema.Sound node :=
    Schema.sound_of_wellFormed (by decide) (by decide)
  have huncrossed : nodes.schema.Uncrossed node :=
    Schema.uncrossed_of_noCrossedNames (by decide) (by decide)
  refine ⟨_, Codec.decode_render hsound huncrossed (by decide +kernel) (by cbv) (by cbv), ?_⟩
  intro hagree
  have hset : (parent.spelled nodes.schema node).get child =
      .single (.message (Message.empty.spelled nodes.schema node)) := by
    cbv
  have hunset : parent.get child = .single (.message .empty) := by cbv
  rw [hset, hunset] at hagree
  have hhas := hagree.has_eq child (by decide +kernel)
  have hchild : (Message.empty.spelled nodes.schema node).has child = true := by cbv
  rw [hchild] at hhas
  cases hhas

/-- A value does not stay with its field where names are crossed, where a default instance is set
in place of a message that was not, and where a floating-point number is read as its neighbour. -/
theorem not_decode_encode_field :
    (crossed.conforms crossings.schema crossing = true ∧ (crossed.get? 1).isSome = true ∧
      crossing.keyed? "b" ≠ crossing.named? "b" ∧
      ∃ m', crossings.decode crossing (crossings.encode crossing crossed).render = .ok m' ∧
        (m'.get? 1).isSome = false) ∧
    (parent.conforms nodes.schema node = true ∧ parent.has child = true ∧
      node.keyed? child.name = some child ∧
      ∃ m', nodes.decode node (nodes.encode node parent).render = .ok m' ∧
        ¬ FieldValue.Agree nodes.schema (.message node.name) (m'.get child) (parent.get child)) ∧
    ∃ m', panels.decode gauge
        (panels.encode gauge (gaugeOf ⟨0x3FED1EB851EB851E⟩)).render = .ok m' ∧
      (gaugeOf ⟨0x3FED1EB851EB851E⟩).conforms panels.schema gauge = true ∧
      m'.get? 1 = some (.single (.scalar (.double ⟨0x3FED1EB851EB851F⟩))) := by
  have hmisread : (Leaf.scalar (.double ⟨0x3FED1EB851EB851E⟩)).written.toDouble? =
      some ⟨0x3FED1EB851EB851F⟩ := by
    decide +kernel
  refine ⟨⟨by decide +kernel, rfl, by decide +kernel, _, decode_crossed.1, rfl⟩,
    ⟨by decide +kernel, by decide +kernel, by decide +kernel, exists_decode_parent⟩,
    ⟨_, decode_gaugeOf hmisread, by decide +kernel, rfl⟩⟩

end Sample

end GrpcContract
