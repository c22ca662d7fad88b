import GrpcContract.Proofs.MessageJson
import GrpcContract.Proofs.Results
import GrpcContract.Proofs.WireMessages
import Mathlib.Data.List.Perm.Subperm

/-!
# Reading members in another order

A JSON value may be read as a message or with its objects ordered by key. Members are read exactly
where each of them is and no two give a value to one group, so no order of them matters, and
neither does leaving some out.
-/

namespace GrpcContract

open Json

/-! ### Members ordered by key -/

namespace Json

theorem subperm_insertMember {α : Type} (key : String) (value : α) (members : List (String × α)) :
    (insertMember key value members).Subperm ((key, value) :: members) := by
  induction members with
  | nil => exact .refl _
  | cons first rest ih =>
      unfold insertMember
      split
      · exact .refl _
      · split
        · exact (List.subperm_cons _).mpr .cons_self
        · exact ((List.subperm_cons first).mpr ih).trans (List.Perm.swap ..).subperm

theorem subperm_sortMembers {α : Type} (members : List (String × α)) :
    (sortMembers members).Subperm members := by
  have hfold (sorted : List (String × α)) :
      (members.foldl (fun sorted (k, v) => insertMember k v sorted) sorted).Subperm
        (members ++ sorted) := by
    induction members generalizing sorted with
    | nil => exact .refl _
    | cons first rest ih =>
        have hfirst := subperm_insertMember first.1 first.2 sorted
        exact (ih _).trans (((List.subperm_append_left rest).mpr hfirst).trans
          List.perm_middle.subperm)
  simpa [sortMembers] using hfold []

theorem pairwise_sortMembers {α : Type} {R : String × α → String × α → Prop}
    (hsymm : ∀ {a b}, R a b → R b a) {members : List (String × α)}
    (hpairwise : members.Pairwise R) : (sortMembers members).Pairwise R := by
  obtain ⟨kept, hperm, hsublist⟩ := subperm_sortMembers members
  exact (hperm.pairwise_iff hsymm).mp (hpairwise.sublist hsublist)

theorem sortedMembers_eq_map (members : List (String × Json)) :
    sortedMembers members = members.map fun member => (member.1, member.2.sorted) := by
  induction members with
  | nil => rfl
  | cons member members ih => rw [sortedMembers, ih, List.map_cons]

theorem sortedItems_eq_map (items : List Json) : sortedItems items = items.map sorted := by
  induction items with
  | nil => rfl
  | cons item items ih => rw [sortedItems, ih, List.map_cons]

end Json

/-! ### Groups that are taken -/

theorem MessageType.mem_of_keyed? {t : MessageType} {key : String} {f : Field}
    (hkeyed : t.keyed? key = some f) : f ∈ t.fields := by
  unfold keyed? at hkeyed
  cases hjson : t.fields.find? (·.jsonName == key) with
  | none =>
      rw [hjson] at hkeyed
      exact List.mem_of_find?_eq_some hkeyed
  | some g =>
      rw [hjson] at hkeyed
      exact Option.some.inj hkeyed ▸ List.mem_of_find?_eq_some hjson

/-- Whether two fields are members of one group. -/
def Field.SameGroup (f g : Field) : Prop :=
  f.oneof? ≠ none ∧ f.oneof? = g.oneof?

theorem Field.SameGroup.symm {f g : Field} (hsame : f.SameGroup g) : g.SameGroup f :=
  ⟨hsame.2 ▸ hsame.1, hsame.2.symm⟩

namespace Message

variable {t : MessageType} {m : Message} {f g : Field} {v : FieldValue}

theorem groupTaken_eq_false_iff :
    m.groupTaken t g = false ↔ ∀ h ∈ t.fields, g.SameGroup h → m.has h = false := by
  unfold groupTaken Field.SameGroup
  by_cases hgroup : g.oneof? = none
  · simp [hgroup]
  · have hsome : g.oneof?.isSome = true := Option.isSome_iff_ne_none.mpr hgroup
    simp only [hsome, Bool.true_and, List.any_eq_false, Bool.and_eq_true, beq_iff_eq, not_and,
      Bool.not_eq_true, and_imp]
    exact forall₂_congr fun h _ => ⟨fun hother _ heq => hother heq.symm,
      fun hother heq => hother hgroup heq.symm⟩

theorem has_set_self (m : Message) (t : MessageType) (f : Field) (v : FieldValue) :
    (m.set t f v).has f = f.holds v := by
  simp [has, set, put, get?, fields, lookup_insertNumbered]

theorem has_set_of_ne (hwf : t.WellFormed) (hg : g ∈ t.fields) (hne : g.number ≠ f.number)
    (hother : ¬ f.SameGroup g) : (m.set t f v).has g = m.has g := by
  have hclear : (m.clearGroup t f).get? g.number = m.get? g.number := by
    unfold clearGroup
    split
    · rfl
    · rename_i group hgroup
      rw [get?_without, if_neg]
      intro hdrop
      obtain ⟨h, hh, hboth⟩ := List.any_eq_true.mp hdrop
      simp only [Bool.and_eq_true, beq_iff_eq] at hboth
      obtain rfl := MessageType.eq_of_number hwf hh hg hboth.1.1
      exact hother ⟨by simp [hgroup], hgroup.trans hboth.2.symm⟩
  have hget : (m.set t f v).get? g.number = (m.clearGroup t f).get? g.number := by
    simp [set, put, get?, fields, lookup_insertNumbered, hne]
  rw [has, has, hget, hclear]

/-- Setting a field takes its group. -/
theorem groupTaken_set (hwf : t.WellFormed) (hf : f ∈ t.fields)
    (hv : f.oneof? ≠ none → f.holds v = true) :
    (m.set t f v).groupTaken t g = false ↔ ¬ f.SameGroup g ∧ m.groupTaken t g = false := by
  by_cases hsame : f.SameGroup g
  · have hheld : (m.set t f v).has f = true := by rw [has_set_self, hv hsame.1]
    simp only [groupTaken_eq_false_iff, hsame, not_true_eq_false, false_and, iff_false]
    intro hfree
    have hunset := hfree f hf hsame.symm
    simp [hheld] at hunset
  · simp only [groupTaken_eq_false_iff, hsame, not_false_eq_true, true_and]
    apply forall₂_congr
    intro h hh
    apply imp_congr_right
    intro hgh
    have hne : h.number ≠ f.number := by
      intro hnumber
      obtain rfl := MessageType.eq_of_number hwf hh hf hnumber
      exact hsame hgh.symm
    have hother : ¬ f.SameGroup h := fun hfh => hsame ⟨hfh.1, hfh.2.trans hgh.2.symm⟩
    rw [has_set_of_ne hwf hh hne hother]

end Message

/-! ### Which members are read -/

section Members

variable {o : CodecOptions} {s : Schema} {t : MessageType}

/-- Whether a member is one of a declared field that its value can be read for, or is skipped. -/
def MessageType.Reads (o : CodecOptions) (s : Schema) (t : MessageType) (member : String × Json) :
    Prop :=
  match t.keyed? member.1 with
  | none => o.ignoreUnknown = true
  | some f => ∃ v?, fieldOfJson o s f.shape member.2 = .ok v?

/-- Whether a member gives a value to a field. -/
def MessageType.Gives (o : CodecOptions) (s : Schema) (t : MessageType) (member : String × Json)
    (f : Field) : Prop :=
  t.keyed? member.1 = some f ∧ ∃ v, fieldOfJson o s f.shape member.2 = .ok (some v)

/-- Whether two members give no values to one group. -/
def MessageType.Apart (o : CodecOptions) (s : Schema) (t : MessageType) (a b : String × Json) :
    Prop :=
  ∀ f g, t.Gives o s a f → t.Gives o s b g → ¬ f.SameGroup g

theorem MessageType.Apart.symm {a b : String × Json} (hapart : t.Apart o s a b) :
    t.Apart o s b a :=
  fun f g hf hg hsame => hapart g f hg hf hsame.symm

theorem exists_single_of_fieldOfJson {type : FieldType} {presence : Presence}
    {default? : Option Scalar} {j : Json} {v : FieldValue}
    (hread : fieldOfJson o s (.single type presence default?) j = .ok (some v)) :
    ∃ u, v = .single u := by
  have hleaf (hread : (leafOfJson o type j).map (fun v? => v?.map .single) = .ok (some v)) :
      ∃ u, v = .single u := by
    obtain ⟨v?, -, hv⟩ := Except.ok_of_map hread
    obtain ⟨u, -, rfl⟩ := Option.map_eq_some_iff.mp hv
    exact ⟨u, rfl⟩
  cases j with
  | null => simp [fieldOfJson] at hread
  | object members =>
      cases type with
      | message name =>
          simp only [fieldOfJson] at hread
          obtain ⟨m, -, hm⟩ := Except.ok_of_map hread
          exact ⟨.message m, (Option.some.inj hm).symm⟩
      | _ => exact hleaf hread
  | _ => exact hleaf hread

/-- A value that is read for a member of a group is held. -/
theorem Field.holds_of_fieldOfJson {f : Field} {j : Json} {v : FieldValue}
    (hread : fieldOfJson o s f.shape j = .ok (some v)) (hgroup : f.oneof? ≠ none) :
    f.holds v = true := by
  cases hshape : f.shape with
  | single type presence default? =>
      rw [hshape] at hread
      obtain ⟨u, rfl⟩ := exists_single_of_fieldOfJson hread
      exact holds_single (.inr hgroup) u
  | _ => exact absurd (by simp [oneof?, hshape]) hgroup

theorem reads_of_membersOfJson {m m' : Message} {member : String × Json}
    {members : List (String × Json)} (hread : membersOfJson o s t m (member :: members) = .ok m') :
    t.Reads o s member := by
  unfold MessageType.Reads
  cases hkeyed : t.keyed? member.1 with
  | none =>
      by_cases hskip : o.ignoreUnknown = true
      · exact hskip
      · simp [membersOfJson, hkeyed, hskip] at hread
  | some f =>
      simp only [membersOfJson, hkeyed] at hread
      obtain ⟨v?, hv, -⟩ := Except.ok_of_bind hread
      exact ⟨v?, hv⟩

/-- A member that is read either gives nothing or gives a value to its field. -/
theorem membersOfJson_cons_cases {member : String × Json} (hreads : t.Reads o s member)
    (m : Message) (members : List (String × Json)) :
    (∀ f, ¬ t.Gives o s member f) ∧
        membersOfJson o s t m (member :: members) = membersOfJson o s t m members ∨
      ∃ f v, f ∈ t.fields ∧ fieldOfJson o s f.shape member.2 = .ok (some v) ∧
        (∀ g, t.Gives o s member g ↔ g = f) ∧
        membersOfJson o s t m (member :: members) =
          if m.groupTaken t f then .error (.secondMember (f.oneof?.getD ""))
          else membersOfJson o s t (m.set t f v) members := by
  unfold MessageType.Reads at hreads
  unfold MessageType.Gives
  cases hkeyed : t.keyed? member.1 with
  | none =>
      rw [hkeyed] at hreads
      exact .inl ⟨by simp, by rw [membersOfJson, hkeyed]; exact if_pos hreads⟩
  | some f =>
      rw [hkeyed] at hreads
      obtain ⟨v?, hv⟩ := hreads
      cases v? with
      | none =>
          refine .inl ⟨?_, by simp [membersOfJson, hkeyed, hv, bind, Except.bind, Message.give]⟩
          rintro g ⟨heq, v, hg⟩
          obtain rfl := Option.some.inj heq
          simp [hv] at hg
      | some v =>
          refine .inr ⟨f, v, MessageType.mem_of_keyed? hkeyed, hv, fun g => ⟨?_, ?_⟩, ?_⟩
          · rintro ⟨heq, -⟩
            exact (Option.some.inj heq).symm
          · rintro rfl
            exact ⟨rfl, v, hv⟩
          · cases htaken : m.groupTaken t f <;>
              simp [membersOfJson, hkeyed, hv, bind, Except.bind, Message.give, htaken]

/-- A message is read from members exactly where each of them is read, no two give values to one
group, and none gives a value to a group that is taken already. -/
theorem membersOfJson_ok_iff (hwf : t.WellFormed) {m : Message} {members : List (String × Json)} :
    (∃ m', membersOfJson o s t m members = .ok m') ↔
      (∀ member ∈ members, t.Reads o s member) ∧ members.Pairwise (t.Apart o s) ∧
        ∀ member ∈ members, ∀ f, t.Gives o s member f → m.groupTaken t f = false := by
  induction members generalizing m with
  | nil => simp [membersOfJson]
  | cons member members ih =>
      rw [List.forall_mem_cons, List.pairwise_cons, List.forall_mem_cons]
      by_cases hreads : t.Reads o s member
      · rcases membersOfJson_cons_cases hreads m members with
          ⟨hnone, hskip⟩ | ⟨f, v, hf, hread, hgives, hset⟩
        · have hapart (other : String × Json) : t.Apart o s member other :=
            fun f _ hf => absurd hf (hnone f)
          simp [hskip, ih, hreads, hnone, hapart]
        · have hapart (other : String × Json) : t.Apart o s member other ↔
              ∀ g, t.Gives o s other g → ¬ f.SameGroup g := by
            simp only [MessageType.Apart, hgives]
            exact ⟨fun hapart g => hapart f g rfl, fun hapart _ g heq => heq ▸ hapart g⟩
          have hlater (g : Field) := Message.groupTaken_set (m := m) (g := g) hwf hf
            (Field.holds_of_fieldOfJson hread)
          rw [hset]
          cases htaken : m.groupTaken t f with
          | true => simp [hreads, hgives, htaken]
          | false =>
              -- The group is taken from here on, which is what keeps later members apart.
              simp only [Bool.false_eq_true, ↓reduceIte, ih, hlater, hreads, hgives, hapart,
                forall_eq, htaken, true_and]
              constructor
              · rintro ⟨hrest, hpairs, hfree⟩
                exact ⟨hrest, ⟨fun a ha g hg => (hfree a ha g hg).1, hpairs⟩,
                  fun a ha g hg => (hfree a ha g hg).2⟩
              · rintro ⟨hrest, ⟨hother, hpairs⟩, hfree⟩
                exact ⟨hrest, hpairs, fun a ha g hg => ⟨hother a ha g hg, hfree a ha g hg⟩⟩
      · constructor
        · rintro ⟨m', hread⟩
          exact absurd (reads_of_membersOfJson hread) hreads
        · rintro ⟨⟨hhead, -⟩, -⟩
          exact absurd hhead hreads

theorem itemsOfJson_ok_iff {type : FieldType} {items : List Json} :
    (∃ vs, itemsOfJson o s type items = .ok vs) ↔
      ∀ item ∈ items, ∃ v?, valueOfJson o s type item = .ok v? := by
  induction items with
  | nil => simp [itemsOfJson]
  | cons item items ih =>
      rw [List.forall_mem_cons, ← ih, itemsOfJson]
      simp only [Except.exists_ok_bind_iff]
      constructor
      · rintro ⟨v?, hv, vs, hvs, -⟩
        exact ⟨⟨v?, hv⟩, vs, hvs⟩
      · rintro ⟨⟨v?, hv⟩, vs, hvs⟩
        exact ⟨v?, hv, vs, hvs, _, rfl⟩

theorem entriesOfJson_ok_iff {key : ScalarKind} {value : FieldType}
    {entries : List (MapKey × Value)} {members : List (String × Json)} :
    (∃ entries', entriesOfJson o s key value entries members = .ok entries') ↔
      ∀ member ∈ members, (∃ k, key.keyOfText? member.1 = some k) ∧
        ∃ v?, valueOfJson o s value member.2 = .ok v? := by
  induction members generalizing entries with
  | nil => simp [entriesOfJson]
  | cons member members ih =>
      obtain ⟨text, j⟩ := member
      rw [List.forall_mem_cons]
      simp only [entriesOfJson, Except.exists_ok_bind_iff, ih]
      cases hkey : key.keyOfText? text with
      | none => simp [JsonMismatch.orExpected]
      | some k => simp [JsonMismatch.orExpected]

end Members

/-! ### Values with their objects ordered -/

/-- Whether a value is read with its objects ordered by key wherever it is read as it stands, and
gives something to a field where it does so as it stands. -/
structure Json.SortsAlike (o : CodecOptions) (s : Schema) (j : Json) : Prop where
  value : ∀ type, s.Sound (type.target s) → (∃ v?, valueOfJson o s type j = .ok v?) →
    ∃ v?, valueOfJson o s type j.sorted = .ok v?
  field : ∀ shape, s.Sound (shape.valueType.target s) → ∀ v?, fieldOfJson o s shape j = .ok v? →
    ∃ w?, fieldOfJson o s shape j.sorted = .ok w? ∧ w?.isSome = v?.isSome

section Sorted

variable {o : CodecOptions} {s : Schema}

theorem membersOfJson_sorted {t : MessageType} (hsound : s.Sound t) {m : Message}
    {members : List (String × Json)} (halike : ∀ member ∈ members, member.2.SortsAlike o s)
    (hread : ∃ m', membersOfJson o s t m members = .ok m') :
    ∃ m', membersOfJson o s t m (sortMembers (sortedMembers members)) = .ok m' := by
  have hwf := hsound.wellFormed
  obtain ⟨hreads, hapart, hfree⟩ := (membersOfJson_ok_iff hwf).mp hread
  have hsorted (member : String × Json) (hmem : member ∈ members) :
      t.Reads o s (member.1, member.2.sorted) ∧
        ∀ f, t.Gives o s (member.1, member.2.sorted) f → t.Gives o s member f := by
    have hgiven := hreads member hmem
    unfold MessageType.Reads MessageType.Gives at *
    cases hkeyed : t.keyed? member.1 with
    | none => simpa [hkeyed] using hgiven
    | some f =>
        simp only [hkeyed] at hgiven ⊢
        obtain ⟨v?, hv⟩ := hgiven
        obtain ⟨w?, hw, hsome⟩ := (halike member hmem).field f.shape
          (hsound.target (MessageType.mem_of_keyed? hkeyed)) v? hv
        refine ⟨⟨w?, hw⟩, ?_⟩
        rintro g ⟨heq, w, hwg⟩
        obtain rfl := Option.some.inj heq
        obtain rfl := Except.ok.inj (hw.symm.trans hwg)
        obtain ⟨v, rfl⟩ := Option.isSome_iff_exists.mp hsome.symm
        exact ⟨rfl, v, hv⟩
  rw [sortedMembers_eq_map, membersOfJson_ok_iff hwf]
  have hsubset := (subperm_sortMembers (members.map fun member =>
    (member.1, member.2.sorted))).subset
  refine ⟨?_, ?_, ?_⟩
  · intro member hmem
    obtain ⟨given, hgiven, rfl⟩ := List.mem_map.mp (hsubset hmem)
    exact (hsorted given hgiven).1
  · apply pairwise_sortMembers MessageType.Apart.symm
    rw [List.pairwise_map]
    apply hapart.imp_of_mem
    intro a b ha hb hab f g hf hg
    exact hab f g ((hsorted a ha).2 f hf) ((hsorted b hb).2 g hg)
  · intro member hmem f hf
    obtain ⟨given, hgiven, rfl⟩ := List.mem_map.mp (hsubset hmem)
    exact hfree given hgiven f ((hsorted given hgiven).2 f hf)

theorem entriesOfJson_sorted {key : ScalarKind} {value : FieldType}
    (hsound : s.Sound (value.target s)) {entries : List (MapKey × Value)}
    {members : List (String × Json)} (halike : ∀ member ∈ members, member.2.SortsAlike o s)
    (hread : ∃ entries', entriesOfJson o s key value entries members = .ok entries') :
    ∃ entries', entriesOfJson o s key value entries (sortMembers (sortedMembers members)) =
      .ok entries' := by
  rw [entriesOfJson_ok_iff] at hread ⊢
  rw [sortedMembers_eq_map]
  intro member hmem
  obtain ⟨given, hgiven, rfl⟩ := List.mem_map.mp ((subperm_sortMembers _).subset hmem)
  exact ⟨(hread given hgiven).1, (halike given hgiven).value value hsound (hread given hgiven).2⟩

theorem itemsOfJson_sorted {type : FieldType} (hsound : s.Sound (type.target s))
    {items : List Json} (halike : ∀ item ∈ items, item.SortsAlike o s)
    (hread : ∃ vs, itemsOfJson o s type items = .ok vs) :
    ∃ vs, itemsOfJson o s type (sortedItems items) = .ok vs := by
  rw [itemsOfJson_ok_iff] at hread ⊢
  rw [sortedItems_eq_map]
  intro item hmem
  obtain ⟨given, hgiven, rfl⟩ := List.mem_map.mp hmem
  exact (halike given hgiven).value type hsound (hread given hgiven)

namespace Json

theorem SortsAlike.of_eq {j : Json} (hsame : j.sorted = j) : j.SortsAlike o s where
  value _ _ hread := by rwa [hsame]
  field _ _ v? hread := ⟨v?, by rwa [hsame], rfl⟩

theorem SortsAlike.object {members : List (String × Json)}
    (halike : ∀ member ∈ members, member.2.SortsAlike o s) :
    (Json.object members).SortsAlike o s where
  value type hsound hread := by
    cases type with
    | message name =>
        obtain ⟨v?, hv⟩ := hread
        simp only [valueOfJson] at hv
        obtain ⟨m, hm, -⟩ := Except.ok_of_map hv
        obtain ⟨m', hm'⟩ := membersOfJson_sorted hsound halike ⟨m, hm⟩
        rw [FieldType.target] at hm'
        exact ⟨some (.message m'), by simp [sorted, valueOfJson, hm', Except.map]⟩
    | _ =>
        obtain ⟨v?, hv⟩ := hread
        simp only [valueOfJson] at hv
        exact absurd (isLeaf_of_leafOfJson hv) (by simp [isLeaf])
  field shape hsound v? hread := by
    cases shape with
    | single type presence default? =>
        cases type with
        | message name =>
            simp only [fieldOfJson] at hread
            obtain ⟨m, hm, rfl⟩ := Except.ok_of_map hread
            obtain ⟨m', hm'⟩ := membersOfJson_sorted hsound halike ⟨m, hm⟩
            rw [Shape.valueType, FieldType.target] at hm'
            exact ⟨some (.single (.message m')), by simp [sorted, fieldOfJson, hm', Except.map]⟩
        | _ =>
            simp only [fieldOfJson] at hread
            obtain ⟨v, hv, -⟩ := Except.ok_of_map hread
            exact absurd (isLeaf_of_leafOfJson hv) (by simp [isLeaf])
    | repeated type packed => cases hread
    | map key type =>
        simp only [fieldOfJson] at hread
        obtain ⟨entries, hentries, rfl⟩ := Except.ok_of_map hread
        obtain ⟨entries', hentries'⟩ := entriesOfJson_sorted hsound halike ⟨entries, hentries⟩
        rw [Shape.valueType] at hentries'
        exact ⟨some (.map entries'), by simp [sorted, fieldOfJson, hentries', Except.map]⟩

theorem SortsAlike.array {items : List Json} (halike : ∀ item ∈ items, item.SortsAlike o s) :
    (Json.array items).SortsAlike o s where
  value type hsound hread := by
    obtain ⟨v?, hv⟩ := hread
    simp only [valueOfJson] at hv
    exact absurd (isLeaf_of_leafOfJson hv) (by simp [isLeaf])
  field shape hsound v? hread := by
    cases shape with
    | single type presence default? =>
        simp only [fieldOfJson] at hread
        obtain ⟨v, hv, -⟩ := Except.ok_of_map hread
        exact absurd (isLeaf_of_leafOfJson hv) (by simp [isLeaf])
    | repeated type packed =>
        simp only [fieldOfJson] at hread
        obtain ⟨vs, hvs, rfl⟩ := Except.ok_of_map hread
        obtain ⟨vs', hvs'⟩ := itemsOfJson_sorted hsound halike ⟨vs, hvs⟩
        rw [Shape.valueType] at hvs'
        exact ⟨some (.list vs'), by simp [sorted, fieldOfJson, hvs', Except.map]⟩
    | map key type => cases hread

mutual
theorem sortsAlike : ∀ j : Json, j.SortsAlike o s
  | .object members => .object (sortsAlike_members members)
  | .array items => .array (sortsAlike_items items)
  | .null | .bool _ | .number _ | .string _ | .unreadable => .of_eq rfl

theorem sortsAlike_members : ∀ members : List (String × Json), ∀ member ∈ members,
    member.2.SortsAlike o s
  | [], _, hmem => absurd hmem (List.not_mem_nil)
  | (_, j) :: rest, member, hmem => by
      rcases List.mem_cons.mp hmem with rfl | hmem
      · exact sortsAlike j
      · exact sortsAlike_members rest member hmem

theorem sortsAlike_items : ∀ items : List Json, ∀ item ∈ items, item.SortsAlike o s
  | [], _, hmem => absurd hmem (List.not_mem_nil)
  | j :: rest, item, hmem => by
      rcases List.mem_cons.mp hmem with heq | hmem
      · exact heq ▸ sortsAlike j
      · exact sortsAlike_items rest item hmem
end

end Json

/-- A message is read from a value with its objects ordered by key wherever one is read from the
value as it stands. -/
theorem Message.ofJson_sorted {t : MessageType} (hsound : s.Sound t) {j : Json} {m : Message}
    (hread : Message.ofJson o s t j = .ok m) : ∃ m', Message.ofJson o s t j.sorted = .ok m' := by
  cases j with
  | object members => exact membersOfJson_sorted hsound (sortsAlike_members members) ⟨m, hread⟩
  | _ => cases hread

end Sorted

end GrpcContract
