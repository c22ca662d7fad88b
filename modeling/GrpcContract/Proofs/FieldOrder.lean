import GrpcContract.Codec
import GrpcContract.Proofs.EchoedBodies
import GrpcContract.Proofs.SpelledTrees

/-!
# The order of fields in trees

Wherever there is a message in a tree, it lists declared fields by their numbers, which need not be
the order in which they are declared. Which fields these are depends on what the message stands
for: one that is set lists all fields but the members of groups that are not set, a default instance
all fields outside of groups, and a message in a default instance none.
-/

namespace GrpcContract

/-! ### Messages in a tree -/

/-- A step into a tree: to a field, to an item of a list, or to an entry of a map. -/
inductive Tree.Step
  | field (name : String)
  | item (i : Nat)
  | entry (key : MapKey)

/-- What a tree has at the end of a path. -/
def Tree.at? : List Tree.Step → Tree → Option Tree
  | [], t => some t
  | .field name :: path, .message fields => (fields.lookup name).bind (at? path)
  | .item i :: path, .list items => items[i]?.bind (at? path)
  | .entry key :: path, .map entries => (entries.lookup (.scalar key.toScalar)).bind (at? path)
  | _ :: _, _ => none

/-- What a message in a tree stands for: a message that is given, the default instance of a type in
place of one that is not, or a message in a default instance. -/
inductive Occurrence
  | given (type : MessageType) (m : Message)
  | default (type : MessageType)
  | bare

/-- The declared fields that are listed of it, in the order of their declaration. -/
def Occurrence.fields : Occurrence → List Field
  | .given type m => type.fields.filter fun f => f.oneof?.isNone || m.has f
  | .default type => type.fields.filter fun f => f.oneof?.isNone
  | .bare => []

/-- Where the value of a field holds messages. -/
inductive FieldValue.HasAt : FieldValue → List Tree.Step → Message → Prop
  | single (k : Message) : HasAt (.single (.message k)) [] k
  | item {vs : List Value} {i : Nat} {k : Message} (hitem : vs[i]? = some (.message k)) :
      HasAt (.list vs) [.item i] k
  | entry {entries : List (MapKey × Value)} {key : MapKey} {k : Message}
      (hentry : (key, .message k) ∈ entries) : HasAt (.map entries) [.entry key] k

/-- Where a message shows messages, and what these stand for. -/
inductive Message.Shows (s : Schema) :
    MessageType → Message → List Tree.Step → Occurrence → Prop
  | here (t : MessageType) (m : Message) : Shows s t m [] (.given t m)
  | inside {t : MessageType} {m k : Message} {f : Field} {v : FieldValue}
      {steps path : List Tree.Step} {x : Occurrence} (hf : f ∈ t.fields)
      (hstored : m.get? f.number = some v) (hhas : v.HasAt steps k)
      (hinside : Shows s (f.shape.valueType.target s) k path x) :
      Shows s t m (.field f.name :: (steps ++ path)) x
  | unset {t : MessageType} {m : Message} {f : Field} (hf : f ∈ t.fields) (houter : f.oneof? = none)
      (hunset : m.get? f.number = none) (hmessage : f.default = .single (.message .empty)) :
      Shows s t m [.field f.name] (.default (f.shape.valueType.target s))
  | bare {t : MessageType} {m : Message} {f g : Field} (hf : f ∈ t.fields)
      (houter : f.oneof? = none) (hunset : m.get? f.number = none)
      (hmessage : f.default = .single (.message .empty))
      (hg : g ∈ (f.shape.valueType.target s).fields) (hinner : g.oneof? = none)
      (hbare : g.default = .single (.message .empty)) :
      Shows s t m [.field f.name, .field g.name] .bare

/-! ### Fields by number -/

/-- Whether entries are those of declared fields, each once and by number: in the order of the
declaration exactly where that one follows the numbers. -/
structure ListsByNumber (declared : List Field) (entries : List (String × Tree)) : Prop where
  byNumber : ∃ listed : List Field, listed.Perm declared ∧
    (listed.Pairwise fun f g => f.number < g.number) ∧
    entries.map (·.1) = listed.map Field.name
  once : (entries.map (·.1)).Nodup
  inOrder : entries.map (·.1) = declared.map Field.name ↔
    declared.Pairwise fun f g => f.number < g.number

theorem eq_of_map_eq {α β : Type} {key : α → β} {l l' : List α}
    (hinj : ∀ a ∈ l, ∀ b ∈ l', key a = key b → a = b) (hmap : l.map key = l'.map key) : l = l' := by
  induction l generalizing l' with
  | nil => exact (List.map_eq_nil_iff.mp hmap.symm).symm
  | cons a l ih =>
      cases l' with
      | nil => cases hmap
      | cons b l' =>
          obtain ⟨hhead, htail⟩ := List.cons.inj hmap
          rw [hinj a (by simp) b (by simp) hhead,
            ih (fun a ha b hb => hinj a (by simp [ha]) b (by simp [hb])) htail]

/-- The fields of a type that pass a test are listed by number where they are listed as ordered. -/
theorem MessageType.listsByNumber {t : MessageType} (hwf : t.WellFormed) (p : Field → Bool)
    (tree : Field → Tree) :
    ListsByNumber (t.fields.filter p) ((t.ordered.filter p).map fun f => (f.name, tree f)) := by
  have hperm : (t.ordered.filter p).Perm (t.fields.filter p) :=
    (List.mergeSort_perm t.fields _).filter p
  have hsorted : (t.ordered.filter p).Pairwise fun f g => f.number < g.number :=
    (pairwise_ordered hwf).sublist (List.filter_sublist ..)
  have hentries : ((t.ordered.filter p).map fun f => (f.name, tree f)).map (·.1) =
      (t.ordered.filter p).map Field.name := by
    rw [List.map_map]
    rfl
  have hnames : (t.ordered.filter p).Pairwise fun f g => f.name ≠ g.name :=
    (pairwise_ordered_name hwf).sublist (List.filter_sublist ..)
  refine ⟨⟨_, hperm, hsorted, hentries⟩, ?_, ?_⟩
  · rw [hentries]
    exact List.pairwise_map.mpr hnames
  · rw [hentries]
    constructor
    · intro heq
      rw [← eq_of_map_eq ?_ heq]
      · exact hsorted
      · intro f hf g hg hname
        exact eq_of_pairwise_of_key hnames hf (hperm.mem_iff.mpr hg) hname
    · intro hdeclared
      have hsame := hperm.eq_of_pairwise (fun f g _ _ hfg hgf => absurd hfg (Nat.lt_asymm hgf))
        hsorted hdeclared
      rw [hsame]

/-! ### What is at the end of a path -/

section Paths

variable {s : Schema} {t : MessageType} {m : Message} {f : Field}

theorem Message.at?_field (hwf : t.WellFormed) (hf : f ∈ t.shown m.fields)
    (path : List Tree.Step) :
    (m.toTree s t).at? (.field f.name :: path) = (m.fieldTree s f).at? path := by
  have hnames : (t.shown m.fields).Pairwise fun f g => f.name ≠ g.name :=
    (MessageType.pairwise_ordered_name hwf).sublist (List.filter_sublist ..)
  rw [m.toTree_eq hwf, Tree.at?, lookup_map_of_pairwise (m.fieldTree s) hnames hf, Option.bind_some]

theorem Message.at?_field_of_stored (hwf : t.WellFormed) (hf : f ∈ t.fields) {v : FieldValue}
    (hstored : m.get? f.number = some v) (hholds : f.holds v = true) (path : List Tree.Step) :
    (m.toTree s t).at? (.field f.name :: path) = (v.toTree s f.shape.valueType).at? path := by
  have hshown : f ∈ t.shown m.fields :=
    MessageType.mem_shown.mpr ⟨hf, .inr ((Option.any_eq_true ..).mpr ⟨v, hstored, hholds⟩)⟩
  rw [at?_field hwf hshown, fieldTree, hstored]
  rfl

theorem MessageType.at?_defaultTree (hwf : t.WellFormed) (hf : f ∈ t.fields)
    (houter : f.oneof? = none) (path : List Tree.Step) :
    t.defaultTree.at? (.field f.name :: path) = f.bareTree.at? path := by
  have hnames : (t.ordered.filter fun f => f.oneof?.isNone).Pairwise
      fun f g => f.name ≠ g.name :=
    (pairwise_ordered_name hwf).sublist (List.filter_sublist ..)
  have hmem : f ∈ t.ordered.filter fun f => f.oneof?.isNone :=
    List.mem_filter.mpr ⟨mem_ordered.mpr hf, by simp [houter]⟩
  rw [defaultTree_eq, Tree.at?, lookup_map_of_pairwise Field.bareTree hnames hmem, Option.bind_some]

theorem Field.defaultTree_of_message (hmessage : f.default = .single (.message .empty)) :
    f.defaultTree s = (f.shape.valueType.target s).defaultTree := by
  unfold defaultTree
  rw [hmessage]

theorem Field.bareTree_of_message (hmessage : f.default = .single (.message .empty)) :
    f.bareTree = .message [] := by
  unfold bareTree
  rw [hmessage]

theorem FieldValue.HasAt.holds {v : FieldValue} {steps : List Tree.Step} {k : Message}
    (hhas : v.HasAt steps k) (f : Field) : f.holds v = true := by
  cases hhas with
  | single => rfl
  | item hitem =>
      rw [Field.holds, Bool.not_eq_true', List.isEmpty_eq_false_iff]
      exact List.ne_nil_of_mem (List.mem_of_getElem? hitem)
  | entry hentry =>
      rw [Field.holds, Bool.not_eq_true', List.isEmpty_eq_false_iff]
      exact List.ne_nil_of_mem hentry

theorem Message.conforms_of_value {type : FieldType} {k : Message}
    (hconf : (Value.message k).conforms s type = true) : k.conforms s (type.target s) = true := by
  cases type with
  | message name => exact hconf
  | _ => exact absurd hconf (by simp [Value.conforms])

theorem FieldValue.HasAt.conforms {shape : Shape} {v : FieldValue} {steps : List Tree.Step}
    {k : Message} (hhas : v.HasAt steps k) (hconf : v.conforms s shape = true) :
    k.conforms s (shape.valueType.target s) = true := by
  apply Message.conforms_of_value
  obtain ⟨type, _, _, w, rfl, rfl, hvalue⟩ | ⟨type, _, vs, rfl, rfl, hvalues⟩ |
    ⟨key, type, entries, rfl, rfl, hvalues, -⟩ := conforms_cases hconf
  · cases hhas
    exact hvalue
  · obtain _ | ⟨hitem⟩ := hhas
    exact hvalues _ (List.mem_of_getElem? hitem)
  · obtain _ | _ | ⟨hentry⟩ := hhas
    exact hvalues _ hentry

theorem MapKey.toScalar_ne {j k : MapKey} (hne : j ≠ k) :
    Leaf.scalar j.toScalar ≠ .scalar k.toScalar := by
  intro heq
  have hkeys := congrArg Scalar.toMapKey? (Leaf.scalar.inj heq)
  rw [j.toMapKey?_toScalar, k.toMapKey?_toScalar] at hkeys
  exact hne (Option.some.inj hkeys)

theorem FieldValue.HasAt.at?_toTree {shape : Shape} {v : FieldValue} {steps : List Tree.Step}
    {k : Message} (hhas : v.HasAt steps k) (hconf : v.conforms s shape = true)
    (path : List Tree.Step) :
    (v.toTree s shape.valueType).at? (steps ++ path) =
      (k.toTree s (shape.valueType.target s)).at? path := by
  obtain ⟨type, _, _, w, rfl, rfl, -⟩ | ⟨type, _, vs, rfl, rfl, -⟩ |
    ⟨kind, type, entries, rfl, rfl, -, hdifferent⟩ := conforms_cases hconf
  · cases hhas
    rfl
  · obtain _ | ⟨hitem⟩ := hhas
    rw [FieldValue.toTree, listTrees_eq_map, List.singleton_append, Tree.at?, List.getElem?_map,
      hitem]
    rfl
  · obtain _ | _ | ⟨hentry⟩ := hhas
    have hperm := List.mergeSort_perm entries entryLe
    have hkeys : (entries.mergeSort entryLe).Pairwise fun a b =>
        Leaf.scalar a.1.toScalar ≠ .scalar b.1.toScalar :=
      ((hperm.pairwise_iff fun h => h.symm).mpr hdifferent).imp MapKey.toScalar_ne
    have hfound := lookup_map_of_pairwise (fun e => e.2.toTree s type) hkeys
      (hperm.mem_iff.mpr hentry)
    rw [FieldValue.toTree, List.singleton_append, Tree.at?, Shape.valueType,
      mergeSort_entryTrees, hfound]
    rfl

/-- Where a message is shown there is one in the tree, and it lists the fields by number. -/
theorem Message.Shows.exists_at? {path : List Tree.Step} {x : Occurrence}
    (hshows : Message.Shows s t m path x) (hsound : s.Sound t) (hconf : m.conforms s t = true) :
    ∃ entries, (m.toTree s t).at? path = some (.message entries) ∧
      ListsByNumber x.fields entries := by
  induction hshows with
  | here t m =>
      rw [m.toTree_eq hsound.wellFormed]
      exact ⟨_, rfl, MessageType.listsByNumber hsound.wellFormed _ _⟩
  | inside hf hstored hhas hinside ih =>
      have hvalue := conforms_of_get? hsound.wellFormed hconf hf hstored
      rw [at?_field_of_stored hsound.wellFormed hf hstored (hhas.holds _),
        hhas.at?_toTree hvalue]
      exact ih (hsound.target hf) (hhas.conforms hvalue)
  | @unset t m f hf houter hunset hmessage =>
      have hshown : f ∈ t.shown m.fields := MessageType.mem_shown.mpr ⟨hf, .inl houter⟩
      rw [at?_field hsound.wellFormed hshown, fieldTree, hunset, Option.map_none, Option.getD_none,
        Field.defaultTree_of_message hmessage, MessageType.defaultTree_eq]
      exact ⟨_, rfl, MessageType.listsByNumber (hsound.target hf).wellFormed _ _⟩
  | @bare t m f g hf houter hunset hmessage hg hinner hbare =>
      have hshown : f ∈ t.shown m.fields := MessageType.mem_shown.mpr ⟨hf, .inl houter⟩
      rw [at?_field hsound.wellFormed hshown, fieldTree, hunset, Option.map_none, Option.getD_none,
        Field.defaultTree_of_message hmessage,
        MessageType.at?_defaultTree (hsound.target hf).wellFormed hg hinner,
        Field.bareTree_of_message hbare]
      exact ⟨_, rfl, ⟨[], .nil, .nil, rfl⟩, .nil, iff_of_true rfl .nil⟩

/-! ### Where there is a message -/

theorem Tree.at?_leaf {l : Leaf} {path : List Tree.Step} {entries : List (String × Tree)} :
    (Tree.leaf l).at? path ≠ some (.message entries) := by
  cases path <;> simp [at?]

theorem Value.exists_message_of_at? {type : FieldType} {v : Value} {path : List Tree.Step}
    {entries : List (String × Tree)}
    (hat : (v.toTree s type).at? path = some (.message entries)) : ∃ k, v = .message k := by
  cases v with
  | scalar x => exact absurd hat Tree.at?_leaf
  | message k => exact ⟨k, rfl⟩

theorem FieldValue.exists_hasAt {type : FieldType} {v : FieldValue} {path : List Tree.Step}
    {entries : List (String × Tree)}
    (hat : (v.toTree s type).at? path = some (.message entries)) :
    ∃ steps rest k, path = steps ++ rest ∧ v.HasAt steps k ∧
      (k.toTree s (type.target s)).at? rest = some (.message entries) := by
  cases v with
  | single v =>
      obtain ⟨k, rfl⟩ := Value.exists_message_of_at? hat
      exact ⟨[], path, k, rfl, .single k, hat⟩
  | list vs =>
      rw [FieldValue.toTree, listTrees_eq_map] at hat
      cases path with
      | nil => cases hat
      | cons step rest =>
          cases step with
          | item i =>
              rw [Tree.at?, List.getElem?_map] at hat
              obtain ⟨tree, htree, hrest⟩ := Option.bind_eq_some_iff.mp hat
              obtain ⟨v, hv, rfl⟩ := Option.map_eq_some_iff.mp htree
              obtain ⟨k, rfl⟩ := Value.exists_message_of_at? hrest
              exact ⟨[.item i], rest, k, rfl, .item hv, hrest⟩
          | _ => cases hat
  | map stored =>
      rw [FieldValue.toTree, mergeSort_entryTrees] at hat
      cases path with
      | nil => cases hat
      | cons step rest =>
          cases step with
          | entry key =>
              rw [Tree.at?] at hat
              obtain ⟨tree, htree, hrest⟩ := Option.bind_eq_some_iff.mp hat
              obtain ⟨e, he, heq⟩ := List.mem_map.mp (mem_of_lookup htree)
              obtain ⟨hkey, rfl⟩ := Prod.mk.inj heq
              obtain ⟨k, hk⟩ := Value.exists_message_of_at? hrest
              obtain rfl : e.1 = key := by
                by_contra hne
                exact MapKey.toScalar_ne hne hkey
              have hmem := (List.mergeSort_perm stored entryLe).mem_iff.mp he
              have hentry : (e.1, .message k) ∈ stored := hk ▸ hmem
              rw [hk] at hrest
              exact ⟨[.entry e.1], rest, k, rfl, .entry hentry, hrest⟩
          | _ => cases hat

theorem Field.at?_bareTree_cons (step : Tree.Step) (path : List Tree.Step) :
    f.bareTree.at? (step :: path) = none := by
  unfold bareTree
  split <;> cases step <;> rfl

theorem Field.message_of_at?_bareTree {path : List Tree.Step} {entries : List (String × Tree)}
    (hat : f.bareTree.at? path = some (.message entries)) :
    path = [] ∧ f.default = .single (.message .empty) := by
  cases path with
  | nil =>
      refine ⟨rfl, ?_⟩
      unfold bareTree at hat
      split at hat
      · cases hat
      · rename_i k hk
        obtain rfl := message_default hk
        exact hk
      · cases hat
      · cases hat
  | cons step path =>
      rw [f.at?_bareTree_cons] at hat
      cases hat

theorem MessageType.exists_of_at?_defaultTree {path : List Tree.Step}
    {entries : List (String × Tree)} (hat : t.defaultTree.at? path = some (.message entries)) :
    path = [] ∨ ∃ g ∈ t.fields, g.oneof? = none ∧ g.default = .single (.message .empty) ∧
      path = [.field g.name] := by
  rw [defaultTree_eq] at hat
  cases path with
  | nil => exact .inl rfl
  | cons step rest =>
      cases step with
      | field name =>
          rw [Tree.at?] at hat
          obtain ⟨tree, htree, hrest⟩ := Option.bind_eq_some_iff.mp hat
          obtain ⟨g, hg, heq⟩ := List.mem_map.mp (mem_of_lookup htree)
          obtain ⟨rfl, rfl⟩ := Prod.mk.inj heq
          obtain ⟨hgt, houter⟩ := List.mem_filter.mp hg
          obtain ⟨rfl, hmessage⟩ := Field.message_of_at?_bareTree hrest
          exact .inr ⟨g, mem_ordered.mp hgt, by simpa using houter, hmessage, rfl⟩
      | _ => cases hat

theorem Field.message_of_at?_defaultTree {path : List Tree.Step} {entries : List (String × Tree)}
    (hat : (f.defaultTree s).at? path = some (.message entries)) :
    f.default = .single (.message .empty) ∧ (path = [] ∨
      ∃ g ∈ (f.shape.valueType.target s).fields, g.oneof? = none ∧
        g.default = .single (.message .empty) ∧ path = [.field g.name]) := by
  by_cases hplain : ∀ k, f.default ≠ .single (.message k)
  · rw [defaultTree_eq_bareTree hplain] at hat
    exact absurd (message_of_at?_bareTree hat).2 (hplain _)
  · obtain ⟨k, hk⟩ := not_forall_not.mp hplain
    obtain rfl := message_default hk
    rw [defaultTree_of_message hk] at hat
    exact ⟨hk, MessageType.exists_of_at?_defaultTree hat⟩

/-- Every message in the tree of a typed message is one that is shown. -/
theorem Message.exists_shows (path : List Tree.Step) (t : MessageType) (m : Message)
    {entries : List (String × Tree)} (hsound : s.Sound t) (hconf : m.conforms s t = true)
    (hat : (m.toTree s t).at? path = some (.message entries)) :
    ∃ x, Message.Shows s t m path x := by
  have hwf := hsound.wellFormed
  cases path with
  | nil => exact ⟨_, .here t m⟩
  | cons step path =>
      rw [m.toTree_eq hwf] at hat
      cases step with
      | item i => cases hat
      | entry key => cases hat
      | field name =>
          rw [Tree.at?] at hat
          obtain ⟨tree, htree, hrest⟩ := Option.bind_eq_some_iff.mp hat
          obtain ⟨f, hf, heq⟩ := List.mem_map.mp (mem_of_lookup htree)
          obtain ⟨rfl, rfl⟩ := Prod.mk.inj heq
          have hft := (MessageType.mem_shown.mp hf).1
          cases hstored : m.get? f.number with
          | some v =>
              have hvalue := conforms_of_get? hwf hconf hft hstored
              rw [fieldTree, hstored] at hrest
              obtain ⟨steps, rest, k, rfl, hhas, hinside⟩ := FieldValue.exists_hasAt hrest
              have hshorter : rest.length < (Tree.Step.field f.name :: (steps ++ rest)).length := by
                simp only [List.length_cons, List.length_append]
                omega
              obtain ⟨x, hx⟩ := exists_shows rest (f.shape.valueType.target s) k
                (hsound.target hft) (hhas.conforms hvalue) hinside
              exact ⟨x, .inside hft hstored hhas hx⟩
          | none =>
              have houter : f.oneof? = none := by
                obtain ⟨-, houter | hset⟩ := MessageType.mem_shown.mp hf
                · exact houter
                · rw [show m.fields.lookup f.number = none from hstored] at hset
                  exact absurd hset (by simp)
              rw [fieldTree, hstored, Option.map_none, Option.getD_none] at hrest
              obtain ⟨hmessage, rfl | ⟨g, hg, hinner, hbare, rfl⟩⟩ :=
                Field.message_of_at?_defaultTree hrest
              · exact ⟨_, .unset hft houter hstored hmessage⟩
              · exact ⟨_, .bare hft houter hstored hmessage hg hinner hbare⟩
termination_by path.length

end Paths

/-- Every message that is shown is written with the declared fields that it lists, each once and by
number, and no other messages are written. -/
theorem Codec.encode_lists_by_number (c : Codec) (t : MessageType) (m : Message)
    (hsound : c.schema.Sound t) (hconf : m.conforms c.schema t = true) :
    (∀ path x, Message.Shows c.schema t m path x →
      ∃ entries, (c.encode t m).at? path = some (.message entries) ∧
        ListsByNumber x.fields entries) ∧
    ∀ path entries, (c.encode t m).at? path = some (.message entries) →
      ∃ x, Message.Shows c.schema t m path x ∧ ListsByNumber x.fields entries := by
  constructor
  · intro path x hshows
    exact hshows.exists_at? hsound hconf
  · intro path entries hat
    obtain ⟨x, hshows⟩ := m.exists_shows path t hsound hconf hat
    obtain ⟨listed, hlisted, hlists⟩ := hshows.exists_at? hsound hconf
    obtain rfl : listed = entries := by
      rw [show (m.toTree c.schema t).at? path = _ from hat] at hlisted
      simpa using hlisted.symm
    exact ⟨x, hshows, hlists⟩

namespace Sample

def scalars : MessageType := Kitchen.scalars "oracle.v1"

def left : Field := .declare "left" 2 (.one (.message root.name))

def opts : Field := .declare "opts" 10 (.one (.message "oracle.v1.Optionals"))

theorem shows_rows {path : List Tree.Step} {x : Occurrence}
    (hshows : Message.Shows pantry.schema root (rows 0) path x) :
    Message.Shows pantry.schema root (rows 1) (.field row.name :: .item 0 :: path) x := by
  rw [← target_row] at hshows
  exact .inside row_mem rfl (.item rfl) hshows

/-- A message in a list, the default instance of a field that it leaves unset, and a message in
that instance. -/
theorem encode_lists_rows :
    let tree := pantry.encode root (rows 1)
    pantry.schema.Sound root ∧ (rows 1).conforms pantry.schema root = true ∧
      (∃ entries, tree.at? [.field "row", .item 0] = some (.message entries) ∧
        ListsByNumber (Occurrence.given root (rows 0)).fields entries) ∧
      (∃ entries, tree.at? [.field "row", .item 0, .field "left"] = some (.message entries) ∧
        ListsByNumber (Occurrence.default root).fields entries) ∧
      ∃ entries, tree.at? [.field "row", .item 0, .field "left", .field "opts"] =
          some (.message entries) ∧
        ListsByNumber Occurrence.bare.fields entries := by
  have hconf : (rows 1).conforms pantry.schema root = true := by decide +kernel
  have htarget : left.shape.valueType.target pantry.schema = root := by decide
  have hunset := Message.Shows.unset (s := pantry.schema) (m := rows 0)
    (by decide : left ∈ root.fields) rfl rfl rfl
  have hbare := Message.Shows.bare (s := pantry.schema) (m := rows 0)
    (by decide : left ∈ root.fields) rfl rfl rfl (g := opts) (by decide) rfl rfl
  rw [htarget] at hunset
  obtain ⟨hlists, -⟩ := Codec.encode_lists_by_number pantry root (rows 1) sound_root hconf
  exact ⟨sound_root, hconf, hlists _ _ (shows_rows (.here root (rows 0))),
    hlists _ _ (shows_rows hunset), hlists _ _ (shows_rows hbare)⟩

/-- Fields that are declared out of the order of their numbers are not listed as declared. -/
theorem encode_not_as_declared :
    scalars.WellFormed ∧ Message.empty.conforms pantry.schema scalars = true ∧
      ∃ entries, pantry.encode scalars .empty = .message entries ∧
        entries.map (·.1) ≠ (scalars.fields.filter fun f =>
          f.oneof?.isNone || Message.empty.has f).map Field.name ∧
        (scalars.fields.map Field.name).head? = some "f_double" ∧
        (entries.map (·.1)).head? = some "f_bytes" := by
  have hwf : scalars.WellFormed := by decide +kernel
  refine ⟨hwf, by decide +kernel, _, Message.empty.toTree_eq hwf, ?_, rfl, by cbv⟩
  intro hnames
  have hdeclared := (MessageType.listsByNumber hwf (fun f => f.oneof?.isNone || Message.empty.has f)
    (Message.empty.fieldTree pantry.schema)).inOrder.mp hnames
  exact absurd hdeclared (by decide +kernel)

end Sample

end GrpcContract
