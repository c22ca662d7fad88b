import GrpcContract.Proofs.ScalarJson
import GrpcContract.Proofs.SpelledOut

/-!
# Messages from the JSON value of their tree

The JSON value that the tree of a message is written as is read as the message with every shown
field spelled out. Members come in the order of field numbers and hold at most one member of each
group, so each of them sets one more field at the end.
-/

namespace GrpcContract

open Json

/-! ### Members -/

theorem insertNumbered_append {α : Type} {done : List (Nat × α)} {n : Nat} (v : α)
    (hlt : ∀ d ∈ done, d.1 < n) : insertNumbered n v done = done ++ [(n, v)] := by
  induction done with
  | nil => rfl
  | cons d done ih =>
      have hhead : d.1 < n := hlt d (by simp)
      rw [insertNumbered, if_neg (by omega), if_neg (by omega),
        ih fun d hd => hlt d (by simp [hd])]
      rfl

namespace Message

variable {t : MessageType} {done : List (Nat × FieldValue)} {f : Field}

/-- Whether no member of the field's group has a value. -/
def GroupFree (t : MessageType) (done : List (Nat × FieldValue)) (f : Field) : Prop :=
  f.oneof? ≠ none → ∀ g ∈ t.fields, g.oneof? = f.oneof? → done.lookup g.number = none

theorem groupTaken_eq_false (hfree : GroupFree t done f) :
    (Message.mk done []).groupTaken t f = false := by
  unfold groupTaken
  by_cases hgroup : f.oneof? = none
  · simp [hgroup]
  · have hany : (t.fields.any fun g => g.oneof? == f.oneof? && (Message.mk done []).has g) =
        false := by
      rw [List.any_eq_false]
      intro g hg hboth
      simp only [Bool.and_eq_true, beq_iff_eq] at hboth
      have hstored : (Message.mk done []).get? g.number = none := hfree hgroup g hg hboth.1
      simp [Message.has, hstored] at hboth
    rw [hany, Bool.and_false]

theorem clearGroup_eq_self (hfree : GroupFree t done f) :
    (Message.mk done []).clearGroup t f = .mk done [] := by
  unfold clearGroup
  split
  · rfl
  · rename_i group hgroup
    have hkeep : done.filter (fun d => !t.fields.any fun g =>
        g.number == d.1 && d.1 != f.number && g.oneof? == some group) = done := by
      rw [List.filter_eq_self]
      intro d hd
      rw [Bool.not_eq_true', List.any_eq_false]
      intro g hg hboth
      simp only [Bool.and_eq_true, beq_iff_eq] at hboth
      have hnone := hfree (by simp [hgroup]) g hg (hboth.2.trans hgroup.symm)
      rw [List.lookup_eq_none_iff] at hnone
      have hne := hnone d hd
      simp [hboth.1.1] at hne
    simp only [without, fields, unknown, hkeep]

/-- A field after all that are set, with its group free, is set at the end. -/
theorem give_append (hfree : GroupFree t done f) (hlt : ∀ d ∈ done, d.1 < f.number)
    (v : FieldValue) :
    (Message.mk done []).give t f (some v) = .ok (.mk (done ++ [(f.number, v)]) []) := by
  simp only [give, groupTaken_eq_false hfree, Bool.false_eq_true, ↓reduceIte, Message.set,
    clearGroup_eq_self hfree, put, fields, unknown, insertNumbered_append v hlt]

end Message

/-- Whether fields come in the order of their numbers, no two of one group among them. -/
def Spread (shown : List Field) : Prop :=
  shown.Pairwise fun f g => f.number < g.number ∧ (g.oneof? = none ∨ g.oneof? ≠ f.oneof?)

theorem membersOfJson_append {o : CodecOptions} {s : Schema} {t : MessageType}
    (hwf : t.WellFormed) (hnames : t.NoCrossedNames) {json : Field → Json}
    {value : Field → FieldValue} {shown : List Field} (hshown : ∀ f ∈ shown, f ∈ t.fields)
    (hspread : Spread shown)
    (hread : ∀ f ∈ shown, fieldOfJson o s f.shape (json f) = .ok (some (value f)))
    {done : List (Nat × FieldValue)} (hlt : ∀ f ∈ shown, ∀ d ∈ done, d.1 < f.number)
    (hfree : ∀ f ∈ shown, Message.GroupFree t done f) :
    membersOfJson o s t (.mk done []) (shown.map fun f => (f.name, json f)) =
      .ok (.mk (done ++ shown.map fun f => (f.number, value f)) []) := by
  induction shown generalizing done with
  | nil => simp [membersOfJson]
  | cons f shown ih =>
      obtain ⟨hhead, htail⟩ := List.pairwise_cons.mp hspread
      have hf : f ∈ t.fields := hshown f (by simp)
      have hgive := Message.give_append (hfree f (by simp)) (hlt f (by simp)) (value f)
      have hlt' : ∀ g ∈ shown, ∀ d ∈ done ++ [(f.number, value f)], d.1 < g.number := by
        intro g hg d hd
        rcases List.mem_append.mp hd with hd | hd
        · exact hlt g (by simp [hg]) d hd
        · obtain rfl : d = (f.number, value f) := by simpa using hd
          exact (hhead g hg).1
      have hfree' : ∀ g ∈ shown, Message.GroupFree t (done ++ [(f.number, value f)]) g := by
        intro g hg hgroup k hk hkg
        have hdone := hfree g (by simp [hg]) hgroup k hk hkg
        have hne : k.number ≠ f.number := by
          intro hnumber
          have hfield := MessageType.field?_number hwf hk
          rw [hnumber, MessageType.field?_number hwf hf] at hfield
          obtain rfl := Option.some.inj hfield
          rcases (hhead g hg).2 with hnone | hother
          · exact hgroup hnone
          · exact hother hkg.symm
        simp [List.lookup_append, hdone, lookup_cons_ite, hne]
      have hrest := ih (fun g hg => hshown g (by simp [hg])) htail
        (fun g hg => hread g (by simp [hg])) hlt' hfree'
      simp only [List.map_cons, membersOfJson, MessageType.keyed?_name hwf hnames hf,
        hread f (by simp)]
      simp only [bind, Except.bind, hgive]
      rw [hrest]
      simp

theorem entriesOfJson_append {o : CodecOptions} {s : Schema} {key : ScalarKind}
    {type : FieldType} {α : Type} {entryKey : α → MapKey} {text : α → String} {json : α → Json}
    {value : α → Value} {entries : List α}
    (hkeys : entries.Pairwise fun a b => entryKey a ≠ entryKey b)
    (htext : ∀ e ∈ entries, key.keyOfText? (text e) = some (entryKey e))
    (hread : ∀ e ∈ entries, valueOfJson o s type (json e) = .ok (some (value e)))
    {done : List (MapKey × Value)} (hdone : ∀ e ∈ entries, ∀ d ∈ done, d.1 ≠ entryKey e) :
    entriesOfJson o s key type done (entries.map fun e => (text e, json e)) =
      .ok (done ++ entries.map fun e => (entryKey e, value e)) := by
  induction entries generalizing done with
  | nil => simp [entriesOfJson]
  | cons e entries ih =>
      obtain ⟨hhead, htail⟩ := List.pairwise_cons.mp hkeys
      have hinsert (done : List (MapKey × Value)) (hne : ∀ d ∈ done, d.1 ≠ entryKey e) :
          insertEntry (entryKey e) (value e) done = done ++ [(entryKey e, value e)] := by
        induction done with
        | nil => rfl
        | cons d done ihdone =>
            rw [insertEntry, if_neg (hne d (by simp)), ihdone fun d hd => hne d (by simp [hd])]
            rfl
      have hdone' : ∀ a ∈ entries, ∀ d ∈ done ++ [(entryKey e, value e)], d.1 ≠ entryKey a := by
        intro a ha d hd
        rcases List.mem_append.mp hd with hd | hd
        · exact hdone a (by simp [ha]) d hd
        · obtain rfl : d = (entryKey e, value e) := by simpa using hd
          exact hhead a ha
      have hrest := ih htail (fun a ha => htext a (by simp [ha]))
        (fun a ha => hread a (by simp [ha])) hdone'
      simp only [List.map_cons, entriesOfJson, htext e (by simp), hread e (by simp),
        JsonMismatch.orExpected, bind, Except.bind, Option.elim_some,
        hinsert done (hdone e (by simp))]
      rw [hrest]
      simp

/-! ### Trees -/

theorem fieldsWritten_map {α : Type} (name : α → String) (tree : α → Tree) (l : List α) :
    Tree.fieldsWritten (l.map fun a => (name a, tree a)) =
      l.map fun a => (name a, (tree a).written) := by
  induction l with
  | nil => rfl
  | cons a l ih => simp only [List.map_cons, Tree.fieldsWritten, ih]

theorem fieldsReadBack_map {α : Type} (name : α → String) (tree : α → Tree) (l : List α) :
    Tree.fieldsReadBack (l.map fun a => (name a, tree a)) = true ↔
      ∀ a ∈ l, (tree a).floatsReadBack = true := by
  induction l with
  | nil => simp [Tree.fieldsReadBack]
  | cons a l ih => simp [Tree.fieldsReadBack, ih]

theorem entriesWritten_map {α : Type} (key : α → Leaf) (tree : α → Tree) (l : List α) :
    Tree.entriesWritten (l.map fun a => (key a, tree a)) =
      l.map fun a => ((key a).key, (tree a).written) := by
  induction l with
  | nil => rfl
  | cons a l ih => simp only [List.map_cons, Tree.entriesWritten, ih]

theorem entriesReadBack_map {α : Type} (key : α → Leaf) (tree : α → Tree) (l : List α) :
    Tree.entriesReadBack (l.map fun a => (key a, tree a)) = true ↔
      ∀ a ∈ l, (tree a).floatsReadBack = true := by
  induction l with
  | nil => simp [Tree.entriesReadBack]
  | cons a l ih => simp [Tree.entriesReadBack, ih]

theorem filterMap_ite_none {α β : Type} (hide : α → Bool) (g : α → β) (l : List α) :
    (l.filterMap fun a => if hide a then none else some (g a)) =
      (l.filter fun a => !hide a).map g := by
  induction l with
  | nil => rfl
  | cons a l ih => cases hhide : hide a <;> simp [hhide, ih]

theorem MessageType.assemble_eq (s : Schema) (t : MessageType) (fields : List (Nat × FieldValue))
    (trees : List (Nat × Tree)) :
    t.assemble s fields trees =
      .message ((t.shown fields).map fun f =>
        (f.name, (trees.lookup f.number).getD (f.defaultTree s))) := by
  unfold MessageType.assemble MessageType.shown
  rw [filterMap_ite_none]
  refine congrArg Tree.message (congrArg (List.map _) (List.filter_congr fun f _ => ?_))
  cases f.oneof? <;> simp

theorem MessageType.defaultTree_eq (t : MessageType) :
    t.defaultTree =
      .message ((t.ordered.filter fun f => f.oneof?.isNone).map fun f => (f.name, f.bareTree)) := by
  unfold MessageType.defaultTree
  rw [filterMap_ite_none]
  refine congrArg Tree.message (congrArg (List.map _) (List.filter_congr fun f _ => ?_))
  cases f.oneof? <;> rfl

theorem Field.defaultTree_eq_bareTree {f : Field}
    (hplain : ∀ m, f.default ≠ .single (.message m)) (s : Schema) :
    f.defaultTree s = f.bareTree := by
  unfold Field.defaultTree
  split
  · rename_i m heq
    exact absurd heq (hplain m)
  · rfl

theorem lookup_fieldTrees (s : Schema) (t : MessageType) (fields : List (Nat × FieldValue))
    (n : Nat) : (fieldTrees s t fields).lookup n =
      (fields.lookup n).map (FieldValue.toTree s (t.typeOf n)) := by
  induction fields with
  | nil => rfl
  | cons entry rest ih =>
      obtain ⟨k, v⟩ := entry
      by_cases hk : n = k
      · subst hk
        simp [fieldTrees, MessageType.typeOf]
      · simp [fieldTrees, lookup_cons_ite, hk, ih]

theorem entryTrees_eq_map (s : Schema) (type : FieldType) (entries : List (MapKey × Value)) :
    entryTrees s type entries =
      entries.map fun e => (.scalar e.1.toScalar, e.2.toTree s type) := by
  induction entries with
  | nil => rfl
  | cons entry rest ih => simp only [entryTrees, List.map_cons, ih]

theorem spelledEntries_eq_map (s : Schema) (type : FieldType) (entries : List (MapKey × Value)) :
    spelledEntries s type entries = entries.map fun e => (e.1, e.2.spelled s type) := by
  induction entries with
  | nil => rfl
  | cons entry rest ih => simp only [spelledEntries, List.map_cons, ih]

theorem mergeSort_entryTrees (s : Schema) (type : FieldType) (entries : List (MapKey × Value)) :
    (entryTrees s type entries).mergeSort (fun a b => a.1.keyLe b.1) =
      (entries.mergeSort entryLe).map fun e => (.scalar e.1.toScalar, e.2.toTree s type) := by
  rw [entryTrees_eq_map]
  refine (List.map_mergeSort (r := entryLe) ?_).symm
  intro a _ b _
  rfl

theorem mergeSort_map_entryLe (g : Value → Value) (entries : List (MapKey × Value)) :
    (entries.map fun e => (e.1, g e.2)).mergeSort entryLe =
      (entries.mergeSort entryLe).map fun e => (e.1, g e.2) := by
  refine (List.map_mergeSort (r := entryLe) ?_).symm
  intro a _ b _
  rfl

theorem mergeSort_spelledEntries (s : Schema) (type : FieldType)
    (entries : List (MapKey × Value)) :
    (spelledEntries s type entries).mergeSort entryLe =
      (entries.mergeSort entryLe).map fun e => (e.1, e.2.spelled s type) := by
  rw [spelledEntries_eq_map, mergeSort_map_entryLe]

/-! ### Values that are no messages -/

theorem valueOfJson_of_ne_message (o : CodecOptions) (s : Schema) {type : FieldType}
    (htype : ∀ name, type ≠ .message name) (j : Json) :
    valueOfJson o s type j = leafOfJson o type j := by
  cases type with
  | message name => exact absurd rfl (htype name)
  | _ => cases j <;> rfl

theorem fieldOfJson_single_of_ne_message (o : CodecOptions) (s : Schema) {type : FieldType}
    (htype : ∀ name, type ≠ .message name) (presence : Presence) (default? : Option Scalar)
    {j : Json} {v : Value} (hread : leafOfJson o type j = .ok (some v)) :
    fieldOfJson o s (.single type presence default?) j = .ok (some (.single v)) := by
  cases type with
  | message name => exact absurd rfl (htype name)
  | _ =>
      cases j with
      | null => exact absurd hread (leafOfJson_null_ne_ok o _ _)
      | _ =>
          simp only [fieldOfJson, hread]
          rfl

theorem ne_message_of_admits {type : FieldType} {x : Scalar} (hadmits : type.admits x = true) :
    ∀ name, type ≠ .message name := by
  rintro name rfl
  exact absurd hadmits (by simp [FieldType.admits])

/-! ### Fields without a value -/

/-- A field without a value is read from its bare tree as its default. -/
theorem fieldOfJson_bareTree (o : CodecOptions) (s : Schema) {f : Field}
    (hwf : f.shape.WellFormed) (hback : f.bareTree.floatsReadBack = true) :
    fieldOfJson o s f.shape f.bareTree.written = .ok (some f.default) := by
  obtain ⟨name, number, jsonName, shape⟩ := f
  cases shape with
  | «repeated» type packed => rfl
  | map key value => rfl
  | single type presence default? =>
      rcases type.zero?_cases with ⟨name, rfl⟩ | ⟨x, hx⟩
      · cases default? with
        | none => rfl
        | some x => exact absurd hwf.2.1 (by simp [FieldType.admits])
      · obtain ⟨y, hdefault, hadmits⟩ :
            ∃ y, (default? <|> type.zero?) = some y ∧ type.admits y = true := by
          cases default? with
          | none => exact ⟨x, hx, FieldType.admits_zero? hx⟩
          | some y => exact ⟨y, rfl, by simpa using hwf.2.1⟩
        simp only [Field.bareTree, Field.default, hdefault, Shape.valueType, Tree.floatsReadBack,
          Tree.written] at hback ⊢
        exact fieldOfJson_single_of_ne_message o s (ne_message_of_admits hadmits) presence default?
          (leafOfJson_written o hwf.1 hadmits hback)

theorem groupFree_nil (t : MessageType) (f : Field) : Message.GroupFree t [] f :=
  fun _ _ _ _ => rfl

/-- A message type's default instance is read from its tree spelled out. -/
theorem membersOfJson_defaultTree (o : CodecOptions) (s : Schema) {t : MessageType}
    (hwf : t.WellFormed) (hnames : t.NoCrossedNames) (hback : t.defaultTree.floatsReadBack = true) :
    ∃ members, t.defaultTree.written = .object members ∧
      membersOfJson o s t .empty members = .ok t.spelledDefault := by
  have hspread : Spread (t.ordered.filter fun f => f.oneof?.isNone) := by
    refine ((MessageType.pairwise_ordered hwf).sublist (List.filter_sublist ..)).imp_of_mem ?_
    intro f g _ hg hlt
    exact ⟨hlt, Or.inl (by simpa using (List.mem_filter.mp hg).2)⟩
  have hmem : ∀ f ∈ t.ordered.filter fun f => f.oneof?.isNone, f ∈ t.fields :=
    fun f hf => MessageType.mem_ordered.mp (List.mem_filter.mp hf).1
  rw [MessageType.defaultTree_eq] at hback ⊢
  have hleaves := (fieldsReadBack_map Field.name Field.bareTree _).mp hback
  refine ⟨_, rfl, ?_⟩
  rw [fieldsWritten_map Field.name Field.bareTree]
  exact membersOfJson_append hwf hnames hmem hspread
    (fun f hf => fieldOfJson_bareTree o s (hwf.2.2 f (hmem f hf)) (hleaves f hf))
    (by simp) fun f _ => groupFree_nil t f

end GrpcContract
