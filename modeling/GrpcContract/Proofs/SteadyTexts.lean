import GrpcContract.Proofs.SequenceBodies
import GrpcContract.Proofs.SpelledTrees
import GrpcContract.Sample.Schema

/-!
# Texts that stay the same

Reading the text of a message completes it, and the completed message may show more: the default
instance of a message shows the messages in it without fields, but once it is set these are
defaults of their own. `Message.isSteady` tells the messages that show nothing more.
-/

namespace GrpcContract

open Json

/-! ### Steady messages -/

/-- Whether the type of an unset message that the field shows has the property. -/
def Field.forMessage (s : Schema) (p : MessageType → Bool) (f : Field) : Bool :=
  match f.shape with
  | .single (.message name) .explicit _ => p (s.messageType name)
  | _ => true

/-- Whether the default instance of the type shows no field. -/
def MessageType.isBare (t : MessageType) : Bool :=
  (t.shown []).isEmpty

/-- Whether the default instance of the type shows no message that has fields to show. -/
def MessageType.isFlat (s : Schema) (t : MessageType) : Bool :=
  (t.shown []).all (Field.forMessage s MessageType.isBare)

mutual
def Value.isSteady (s : Schema) (type : FieldType) : Value → Bool
  | .scalar _ => true
  | .message m => m.isSteady s (type.target s)

def FieldValue.isSteady (s : Schema) (type : FieldType) : FieldValue → Bool
  | .single v => v.isSteady s type
  | .list vs => valuesSteady s type vs
  | .map entries => entriesSteady s type entries

/-- Whether each message that is shown as a default instance, here and in every message inside, is
of a type that is flat. -/
def Message.isSteady (s : Schema) (t : MessageType) : Message → Bool
  | .mk fields _ => (t.shown fields).all fun f =>
    ((fieldsSteady s t fields).lookup f.number).getD (f.forMessage s (MessageType.isFlat s))

def valuesSteady (s : Schema) (type : FieldType) : List Value → Bool
  | [] => true
  | v :: rest => v.isSteady s type && valuesSteady s type rest

def entriesSteady (s : Schema) (type : FieldType) : List (MapKey × Value) → Bool
  | [] => true
  | (_, v) :: rest => v.isSteady s type && entriesSteady s type rest

def fieldsSteady (s : Schema) (t : MessageType) : List (Nat × FieldValue) → List (Nat × Bool)
  | [] => []
  | (n, v) :: rest => (n, v.isSteady s (t.typeOf n)) :: fieldsSteady s t rest
end

theorem lookup_fieldsSteady (s : Schema) (t : MessageType) (fields : List (Nat × FieldValue))
    (n : Nat) : (fieldsSteady s t fields).lookup n =
      (fields.lookup n).map (FieldValue.isSteady s (t.typeOf n)) := by
  induction fields with
  | nil => rfl
  | cons entry rest ih =>
      obtain ⟨k, v⟩ := entry
      by_cases hk : n = k
      · subst hk
        simp [fieldsSteady]
      · simp [fieldsSteady, lookup_cons_ite, hk, ih]

theorem valuesSteady_iff {s : Schema} {type : FieldType} {vs : List Value} :
    valuesSteady s type vs = true ↔ ∀ v ∈ vs, v.isSteady s type = true := by
  induction vs with
  | nil => simp [valuesSteady]
  | cons v vs ih => simp [valuesSteady, ih]

theorem entriesSteady_iff {s : Schema} {type : FieldType} {entries : List (MapKey × Value)} :
    entriesSteady s type entries = true ↔ ∀ e ∈ entries, e.2.isSteady s type = true := by
  induction entries with
  | nil => simp [entriesSteady]
  | cons e entries ih => simp [entriesSteady, ih]

/-! ### Trees that stay the same -/

/-- Whether it decides that a tree takes the place of another that the two are the same: they are
if it holds, and even their texts differ if not. -/
structure Tree.Stays (steady : Prop) (after before : Tree) : Prop where
  same (h : steady) : after = before
  steady (h : after.written = before.written) : steady

namespace Tree.Stays

theorem rfl {t : Tree} : Stays (true = true) t t :=
  ⟨fun _ => Eq.refl t, fun _ => Eq.refl true⟩

theorem congr {p q : Prop} {after before : Tree} (hstays : Stays p after before) (hiff : q ↔ p) :
    Stays q after before :=
  ⟨fun h => hstays.same (hiff.mp h), fun h => hiff.mpr (hstays.steady h)⟩

theorem message {α : Type} {name : α → String} {p : α → Prop} {after before : α → Tree}
    {l : List α} (hl : ∀ a ∈ l, Stays (p a) (after a) (before a)) :
    Stays (∀ a ∈ l, p a) (.message (l.map fun a => (name a, after a)))
      (.message (l.map fun a => (name a, before a))) where
  same h := congrArg Tree.message (List.map_congr_left fun a ha => by rw [(hl a ha).same (h a ha)])
  steady h := by
    rw [written, written, fieldsWritten_map, fieldsWritten_map] at h
    have hall := List.map_inj_left.mp (Json.object.inj h)
    exact fun a ha => (hl a ha).steady (Prod.mk.inj (hall a ha)).2

theorem list {α : Type} {p : α → Prop} {after before : α → Tree} {l : List α}
    (hl : ∀ a ∈ l, Stays (p a) (after a) (before a)) :
    Stays (∀ a ∈ l, p a) (.list (l.map after)) (.list (l.map before)) where
  same h := congrArg Tree.list (List.map_congr_left fun a ha => (hl a ha).same (h a ha))
  steady h := by
    rw [written, written, itemsWritten_eq_map, itemsWritten_eq_map, List.map_map, List.map_map] at h
    have hall := List.map_inj_left.mp (Json.array.inj h)
    exact fun a ha => (hl a ha).steady (hall a ha)

theorem map {α : Type} {key : α → Leaf} {p : α → Prop} {after before : α → Tree} {l : List α}
    (hl : ∀ a ∈ l, Stays (p a) (after a) (before a)) :
    Stays (∀ a ∈ l, p a) (.map (l.map fun a => (key a, after a)))
      (.map (l.map fun a => (key a, before a))) where
  same h := congrArg Tree.map (List.map_congr_left fun a ha => by rw [(hl a ha).same (h a ha)])
  steady h := by
    rw [written, written, entriesWritten_map, entriesWritten_map] at h
    have hall := List.map_inj_left.mp (Json.object.inj h)
    exact fun a ha => (hl a ha).steady (Prod.mk.inj (hall a ha)).2

end Tree.Stays

/-! ### Fields without a value -/

theorem Field.forMessage_eq_true {f : Field}
    (hshape : ∀ name presence default?, f.shape ≠ .single (.message name) presence default?)
    (s : Schema) (p : MessageType → Bool) : f.forMessage s p = true := by
  unfold Field.forMessage
  split
  · rename_i name default? heq
    exact absurd heq (hshape name .explicit default?)
  · rfl

/-- Of a message outside of groups it is recorded that it is set. -/
theorem Field.presence_eq_explicit {f : Field} (hwf : f.shape.WellFormed)
    (hgroup : f.oneof? = none) {name : String} {presence : Presence} {default? : Option Scalar}
    (hshape : f.shape = .single (.message name) presence default?) : presence = .explicit := by
  cases presence with
  | explicit => rfl
  | oneof group => simp [Field.oneof?, hshape] at hgroup
  | implicit =>
      rw [hshape] at hwf
      exact absurd (hwf.2.2 rfl).2 (by simp [FieldType.zero?])

theorem MessageType.shown_nil (t : MessageType) :
    t.shown [] = t.ordered.filter fun f => f.oneof?.isNone := by
  simp [shown]

theorem MessageType.stays_bare (s : Schema) {t : MessageType} (hwf : t.WellFormed) :
    Tree.Stays (t.isBare = true) (Message.empty.toTree s t) (.message []) := by
  rw [Message.toTree_eq hwf, isBare, List.isEmpty_iff]
  constructor
  · intro hnone
    have hempty : t.shown Message.empty.fields = [] := hnone
    rw [hempty, List.map_nil]
  · intro hwritten
    rw [Tree.written, Tree.written, fieldsWritten_map] at hwritten
    exact List.map_eq_nil_iff.mp (Json.object.inj hwritten)

/-- In a default instance that is set a message is one that is not set. -/
theorem Field.stays_defaultInstance {s : Schema} {t : MessageType} (hsound : s.Sound t) {f : Field}
    (hf : f ∈ t.shown []) :
    Tree.Stays (f.forMessage s MessageType.isBare = true) (t.defaultInstance.fieldTree s f)
      f.bareTree := by
  have hft := (MessageType.mem_shown.mp hf).1
  have hgroup : f.oneof? = none := by simpa using (MessageType.mem_shown.mp hf).2
  have hwf := hsound.wellFormed
  rw [Message.fieldTree, MessageType.get?_defaultInstance hwf hft]
  rcases Field.default_cases (hwf.2.2 f hft) with
    ⟨name, presence, default?, hshape, hdefault⟩ | ⟨hplain, hother⟩
  · -- Within a default instance a message is shown without fields, but one that is set is not.
    obtain rfl := presence_eq_explicit (hwf.2.2 f hft) hgroup hshape
    have htarget := (hsound.target hft).wellFormed
    rw [hshape] at htarget
    have hbare := MessageType.stays_bare s htarget
    simp only [isExplicit, forMessage, bareTree, hshape, hdefault, ↓reduceIte, Option.map_some,
      Option.getD_some]
    exact hbare
  · rw [forMessage_eq_true hother]
    split
    · rw [Option.map_some, Option.getD_some, toTree_default hplain]
      exact .rfl
    · rw [Option.map_none, Option.getD_none, defaultTree_eq_bareTree hplain]
      exact .rfl

theorem MessageType.stays_flat {s : Schema} {t : MessageType} (hsound : s.Sound t) :
    Tree.Stays (t.isFlat s = true) (t.defaultInstance.toTree s t) t.defaultTree := by
  have hwf := hsound.wellFormed
  have hshown : t.shown t.defaultInstance.fields = t.shown [] := by
    refine shown_congr (k := .empty) fun f hf hgroup => ?_
    rw [Message.has, get?_defaultInstance hwf hf, Field.isExplicit_eq_false hgroup]
    rfl
  rw [Message.toTree_eq hwf, defaultTree_eq, hshown, ← shown_nil]
  exact (Tree.Stays.message fun f hf => f.stays_defaultInstance hsound hf).congr List.all_eq_true

/-- A field that is not set is shown as a default instance, where completion sets it. -/
theorem Message.stays_unset {s : Schema} {t : MessageType} (hsound : s.Sound t) {m : Message}
    {f : Field} (hf : f ∈ t.shown m.fields) (hunset : m.get? f.number = none) :
    Tree.Stays (f.forMessage s (MessageType.isFlat s) = true) ((m.complete s t).fieldTree s f)
      (m.fieldTree s f) := by
  obtain ⟨hft, hgroup | hset⟩ := MessageType.mem_shown.mp hf
  · have hwf := hsound.wellFormed
    rw [fieldTree, fieldTree, get?_complete hwf s m hft, hunset]
    simp only [Option.map_none, Option.none_or, Option.getD_none]
    rcases Field.default_cases (hwf.2.2 f hft) with
      ⟨name, presence, default?, hshape, hdefault⟩ | ⟨hplain, hother⟩
    · obtain rfl := Field.presence_eq_explicit (hwf.2.2 f hft) hgroup hshape
      have htarget := hsound.target hft
      rw [hshape] at htarget
      have hflat := MessageType.stays_flat htarget
      simp only [Field.isExplicit, Field.forMessage, Field.completion, Field.defaultTree, hshape,
        hdefault, ↓reduceIte, Option.map_some, Option.getD_some]
      exact hflat
    · rw [Field.forMessage_eq_true hother, Field.defaultTree_eq_bareTree hplain]
      split
      · rw [Option.map_some, Option.getD_some, Field.completion_eq_default hother,
          Field.toTree_default hplain]
        exact .rfl
      · exact .rfl
  · obtain ⟨v, hv, -⟩ := (Option.any_eq_true ..).mp hset
    exact absurd (hunset.symm.trans hv) (by simp)

/-! ### Messages -/

theorem completeValues_eq_map (s : Schema) (type : FieldType) (vs : List Value) :
    completeValues s type vs = vs.map (Value.complete s type) := by
  induction vs with
  | nil => rfl
  | cons v vs ih => rw [completeValues, ih, List.map_cons]

/-- Of the members of groups a completed message has those set that are. -/
theorem Message.has_complete {t : MessageType} (hwf : t.WellFormed) (s : Schema) (m : Message)
    {f : Field} (hf : f ∈ t.fields) (hgroup : f.oneof? ≠ none) :
    (m.complete s t).has f = m.has f := by
  rw [has, has, get?_complete hwf s m hf, Field.isExplicit_eq_false hgroup]
  cases m.get? f.number with
  | none => rfl
  | some v => simp [f.holds_complete]

section Complete

variable (s : Schema)

mutual
theorem Value.stays_complete : ∀ (type : FieldType) (v : Value), s.Sound (type.target s) →
    Tree.Stays (v.isSteady s type = true) ((v.complete s type).toTree s type) (v.toTree s type)
  | _, .scalar _, _ => .rfl
  | type, .message m, hsound => m.stays_complete (type.target s) hsound

theorem FieldValue.stays_complete : ∀ (type : FieldType) (v : FieldValue),
    s.Sound (type.target s) →
    Tree.Stays (v.isSteady s type = true) ((v.complete s type).toTree s type) (v.toTree s type)
  | type, .single v, hsound => v.stays_complete type hsound
  | type, .list vs, hsound => by
      have hvalues := valuesStay_complete type vs hsound
      simp only [FieldValue.complete, FieldValue.toTree, listTrees_eq_map, completeValues_eq_map,
        List.map_map]
      exact (Tree.Stays.list hvalues).congr valuesSteady_iff
  | type, .map entries, hsound => by
      have hentries := entriesStay_complete type entries hsound
      have hmem (e : MapKey × Value) : e ∈ entries.mergeSort entryLe ↔ e ∈ entries :=
        (List.mergeSort_perm entries entryLe).mem_iff
      simp only [FieldValue.complete, FieldValue.toTree, mergeSort_entryTrees,
        mergeSort_completeEntries, List.map_map]
      refine (Tree.Stays.map fun e he => hentries e ((hmem e).mp he)).congr ?_
      simp only [hmem]
      exact entriesSteady_iff

/-- A completed message is shown like the message itself exactly where this is steady. -/
theorem Message.stays_complete : ∀ (t : MessageType) (m : Message), s.Sound t →
    Tree.Stays (m.isSteady s t = true) ((m.complete s t).toTree s t) (m.toTree s t)
  | t, .mk fields unknown, hsound => by
      have hwf := hsound.wellFormed
      -- Completion sets no member of a group, so both messages show the same fields.
      have hshown : t.shown ((Message.mk fields unknown).complete s t).fields = t.shown fields :=
        MessageType.shown_congr (k := .mk fields unknown) fun f hf =>
          Message.has_complete hwf s _ hf
      rw [Message.toTree_eq hwf, Message.toTree_eq hwf, hshown]
      refine (Tree.Stays.message fun f hf => ?_).congr List.all_eq_true
      have hft := (MessageType.mem_shown.mp hf).1
      rw [lookup_fieldsSteady, MessageType.typeOf_number hwf hft]
      cases hstored : fields.lookup f.number with
      | none => exact Message.stays_unset hsound hf hstored
      | some v =>
          have hget : (Message.mk fields unknown).get? f.number = some v := hstored
          have hvalue := fieldsStay_complete t fields hsound f.number v hstored f hft
          simp only [Message.fieldTree, Message.get?_complete hwf s _ hft, hget, Option.map_some,
            Option.some_or, Option.getD_some]
          exact hvalue

theorem valuesStay_complete : ∀ (type : FieldType) (vs : List Value), s.Sound (type.target s) →
    ∀ v ∈ vs, Tree.Stays (v.isSteady s type = true) ((v.complete s type).toTree s type)
      (v.toTree s type)
  | _, [], _, _, hv => absurd hv (List.not_mem_nil)
  | type, v' :: rest, hsound, v, hv => by
      rcases List.mem_cons.mp hv with heq | hv
      · exact heq ▸ v'.stays_complete type hsound
      · exact valuesStay_complete type rest hsound v hv

theorem entriesStay_complete : ∀ (type : FieldType) (entries : List (MapKey × Value)),
    s.Sound (type.target s) → ∀ e ∈ entries, Tree.Stays (e.2.isSteady s type = true)
      ((e.2.complete s type).toTree s type) (e.2.toTree s type)
  | _, [], _, _, he => absurd he (List.not_mem_nil)
  | type, (_, v) :: rest, hsound, e, he => by
      rcases List.mem_cons.mp he with rfl | he
      · exact v.stays_complete type hsound
      · exact entriesStay_complete type rest hsound e he

theorem fieldsStay_complete : ∀ (t : MessageType) (fields : List (Nat × FieldValue)), s.Sound t →
    ∀ n v, fields.lookup n = some v → ∀ f ∈ t.fields,
    Tree.Stays (v.isSteady s f.shape.valueType = true)
      ((v.complete s f.shape.valueType).toTree s f.shape.valueType)
      (v.toTree s f.shape.valueType)
  | t, (k, v') :: rest, hsound, n, v, hstored, f, hf => by
      rw [lookup_cons_ite] at hstored
      split at hstored
      · obtain rfl := Option.some.inj hstored
        exact v'.stays_complete f.shape.valueType (hsound.target hf)
      · exact fieldsStay_complete t rest hsound n v hstored f hf
end

end Complete

/-! ### Texts -/

theorem Tree.written_eq_of_render_eq {t u : Tree} (hrender : t.render = u.render) :
    t.written = u.written := by
  have hprint : t.print = u.print := by
    rw [← String.toList_ofList (l := t.print), ← String.toList_ofList (l := u.print)]
    exact congrArg String.toList hrender
  exact t.standsFor_written.unique (hprint ▸ u.standsFor_written)

/-- The message that is read from the text of a message has the tree of the completed message. Its
text is the same exactly where the message is steady. -/
theorem Codec.encode_decode_render (c : Codec) (t : MessageType) (m m' : Message)
    (hsound : c.schema.Sound t) (huncrossed : c.schema.Uncrossed t)
    (hconf : m.conforms c.schema t = true) (hback : (c.encode t m).floatsReadBack = true)
    (hread : c.decode t (c.encode t m).render = .ok m') :
    c.encode t m' = c.encode t (m.complete c.schema t) ∧
    (m.isSteady c.schema t = true → c.encode t m' = c.encode t m) ∧
    ((c.encode t m').render = (c.encode t m).render → m.isSteady c.schema t = true) := by
  have htidy := isTidy_written c.options c.schema hsound huncrossed hconf
  have hdepth := Codec.depth_le_of_decode_seen (fun _ => htidy) hread
  have hspelled := Codec.decode_render hsound huncrossed hconf hback hdepth
  obtain rfl : m.spelled c.schema t = m' := Except.ok.inj (hspelled.symm.trans hread)
  have hcomplete : c.encode t (m.spelled c.schema t) = c.encode t (m.complete c.schema t) :=
    Message.toTree_spelled c.schema t m hsound hconf
  have hstays := Message.stays_complete c.schema t m hsound
  refine ⟨hcomplete, fun hsteady => ?_, fun hrender => ?_⟩
  · rw [hcomplete]
    exact hstays.same hsteady
  · -- One text stands for one value, so trees of one text are written alike.
    rw [hcomplete] at hrender
    exact hstays.steady (Tree.written_eq_of_render_eq hrender)

namespace Sample

/-- A type of one floating-point number. -/
def gauge : MessageType :=
  ⟨"Gauge", [.declare "level" 1 (.one (.scalar .double))]⟩

def panel : MessageType :=
  ⟨"Panel", [.declare "gauge" 1 (.one (.message "Gauge"))]⟩

def panels : Codec := ⟨⟨[gauge, panel], []⟩, {}⟩

def gaugeOf (x : Number.Binary64) : Message :=
  .mk [(1, .single (.scalar (.double x)))] []

theorem encode_decode_render_panel :
    Message.empty.isSteady panels.schema panel = true ∧
    ∃ m', panels.decode panel (panels.encode panel .empty).render = .ok m' ∧
      panels.encode panel m' = panels.encode panel (Message.empty.complete panels.schema panel) ∧
      (Message.empty.isSteady panels.schema panel = true →
        panels.encode panel m' = panels.encode panel .empty) ∧
      ((panels.encode panel m').render = (panels.encode panel .empty).render →
        Message.empty.isSteady panels.schema panel = true) := by
  have hsound : panels.schema.Sound panel :=
    Schema.sound_of_wellFormed (by decide +kernel) (by decide +kernel)
  have huncrossed : panels.schema.Uncrossed panel :=
    Schema.uncrossed_of_noCrossedNames (by decide +kernel) (by decide +kernel)
  have hconf : Message.empty.conforms panels.schema panel = true := by decide +kernel
  have hback : (panels.encode panel .empty).floatsReadBack = true := by decide +kernel
  have hread := Codec.decode_render hsound huncrossed hconf hback (by decide +kernel)
  exact ⟨by decide +kernel, _, hread, Codec.encode_decode_render panels panel .empty _ hsound
    huncrossed hconf hback hread⟩

def nodes : Codec := ⟨⟨[node], []⟩, {}⟩

/-- The child that is shown without fields is a node of its own once it is set. -/
theorem exists_decode_node :
    ∃ m', nodes.decode node (nodes.encode node .empty).render = .ok m' ∧
      (nodes.encode node m').render ≠ (nodes.encode node .empty).render := by
  have hsound : nodes.schema.Sound node :=
    Schema.sound_of_wellFormed (by decide) (by decide)
  have huncrossed : nodes.schema.Uncrossed node :=
    Schema.uncrossed_of_noCrossedNames (by decide) (by decide)
  refine ⟨_, Codec.decode_render hsound huncrossed (by decide) (by cbv) (by cbv), ?_⟩
  intro hrender
  have htree := Message.toTree_spelled nodes.schema node .empty hsound (by decide)
  have hwritten := Tree.written_eq_of_render_eq hrender
  rw [Codec.encode, htree] at hwritten
  have hsteady := (Message.stays_complete nodes.schema node .empty hsound).steady hwritten
  have hnot : Message.empty.isSteady nodes.schema node = false := by cbv
  rw [hnot] at hsteady
  cases hsteady

theorem encode_gaugeOf (x : Number.Binary64) :
    panels.encode gauge (gaugeOf x) = .message [("level", .leaf (.scalar (.double x)))] := by
  have hfield : gauge.field? 1 = some (.declare "level" 1 (.one (.scalar .double))) := by
    decide
  have hordered : gauge.ordered = [.declare "level" 1 (.one (.scalar .double))] := by
    simp [gauge, MessageType.ordered]
  simp [Codec.encode, gaugeOf, Message.toTree, MessageType.assemble, fieldTrees, hfield, hordered,
    Field.declare, Shape.one, Field.oneof?, FieldValue.toTree, Value.toTree, FieldType.leaf,
    Shape.valueType]

theorem decode_gaugeOf {x y : Number.Binary64}
    (hleaf : (Leaf.scalar (.double x)).written.toDouble? = some y) :
    panels.decode gauge (panels.encode gauge (gaugeOf x)).render = .ok (gaugeOf y) := by
  have hdepth : (panels.encode gauge (gaugeOf x)).depth ≤ maxDepth := by
    rw [encode_gaugeOf]
    exact Nat.le_of_ble_eq_true rfl
  have hread : leafOfJson panels.options (.scalar .double) (Leaf.scalar (.double x)).written =
      .ok (some (.scalar (.double y))) := by
    simp only [leafOfJson, ScalarKind.ofJson?, hleaf]
    rfl
  have hfield : fieldOfJson panels.options panels.schema (.one (.scalar .double))
      (Leaf.scalar (.double x)).written = .ok (some (.single (.scalar (.double y)))) :=
    fieldOfJson_single_of_ne_message panels.options panels.schema (by simp) .implicit none hread
  have hkeyed : gauge.keyed? "level" = some (.declare "level" 1 (.one (.scalar .double))) := by
    decide
  rw [Codec.decode_of_parse? (Tree.parse?_render hdepth), encode_gaugeOf, Codec.decodeJson]
  simp only [Tree.written, Tree.fieldsWritten, Message.ofJson, membersOfJson, hkeyed,
    Field.declare, hfield]
  rfl

/-- A text does not stay the same where a default instance has messages to show, where names are
crossed, and where a floating-point number is read as its neighbour. -/
theorem encode_decode_render_ne :
    (Message.empty.conforms nodes.schema node = true ∧
      ∃ m', nodes.decode node (nodes.encode node .empty).render = .ok m' ∧
        (nodes.encode node m').render ≠ (nodes.encode node .empty).render) ∧
    (crossed.conforms crossings.schema crossing = true ∧
      ∃ m', crossings.decode crossing (crossings.encode crossing crossed).render = .ok m' ∧
        (crossings.encode crossing m').render ≠ (crossings.encode crossing crossed).render) ∧
    ((gaugeOf ⟨0x3FED1EB851EB851E⟩).conforms panels.schema gauge = true ∧
      ∃ m', panels.decode gauge
          (panels.encode gauge (gaugeOf ⟨0x3FED1EB851EB851E⟩)).render = .ok m' ∧
        (panels.encode gauge m').render ≠
          (panels.encode gauge (gaugeOf ⟨0x3FED1EB851EB851E⟩)).render) := by
  have hmisread : (Leaf.scalar (.double ⟨0x3FED1EB851EB851E⟩)).written.toDouble? =
      some ⟨0x3FED1EB851EB851F⟩ := by
    decide +kernel
  refine ⟨⟨by decide +kernel, exists_decode_node⟩,
    ⟨by decide +kernel, _, decode_crossed.1, by cbv⟩,
    ⟨by decide +kernel, _, decode_gaugeOf hmisread, by decide +kernel⟩⟩

end Sample

end GrpcContract
