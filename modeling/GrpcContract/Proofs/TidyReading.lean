import GrpcContract.Proofs.Alike
import GrpcContract.Proofs.SortedReading
import GrpcContract.Proofs.Tidy

/-!
# Reading tidy values

Of members that mean one field or one key, some are dropped where objects are ordered by key, and
another may come last. A tidy value has no such members: it is read with its objects ordered
exactly where it is read as it stands, and as a message that differs at most in the order of map
entries.
-/

namespace GrpcContract

open Json

/-! ### Members with different keys -/

namespace Json

variable {α : Type}

theorem perm_insertMember {key : String} {value : α} {members : List (String × α)}
    (hne : ∀ member ∈ members, member.1 ≠ key) :
    (insertMember key value members).Perm ((key, value) :: members) := by
  induction members with
  | nil => exact .refl _
  | cons first rest ih =>
      have hfirst : key ≠ first.1 := (hne first (by simp)).symm
      rw [insertMember, if_neg hfirst]
      split
      · exact .refl _
      · exact ((ih fun member hmem => hne member (by simp [hmem])).cons first).trans (.swap ..)

theorem perm_sortMembers {members : List (String × α)}
    (hne : members.Pairwise fun a b => a.1 ≠ b.1) : (sortMembers members).Perm members := by
  have hfold (sorted : List (String × α)) (hother : ∀ a ∈ members, ∀ b ∈ sorted, b.1 ≠ a.1) :
      (members.foldl (fun sorted (k, v) => insertMember k v sorted) sorted).Perm
        (members ++ sorted) := by
    induction members generalizing sorted with
    | nil => exact .refl _
    | cons first rest ih =>
        obtain ⟨hhead, htail⟩ := List.pairwise_cons.mp hne
        have hfirst : (insertMember first.1 first.2 sorted).Perm (first :: sorted) :=
          perm_insertMember (hother first (by simp))
        refine (ih htail _ fun a ha b hb => ?_).trans
          ((hfirst.append_left rest).trans List.perm_middle)
        rcases List.mem_cons.mp (hfirst.mem_iff.mp hb) with rfl | hb
        · exact hhead a ha
        · exact hother a (by simp [ha]) b hb
  simpa [sortMembers] using hfold [] (by simp)

theorem exists_key_insertMember {key key' : String} {value : α} {members : List (String × α)}
    (hkey : key' = key ∨ ∃ member ∈ members, member.1 = key') :
    ∃ member ∈ insertMember key value members, member.1 = key' := by
  induction members with
  | nil =>
      obtain rfl | ⟨member, hmem, -⟩ := hkey
      · exact ⟨(key', value), by simp [insertMember], rfl⟩
      · exact absurd hmem (List.not_mem_nil)
  | cons first rest ih =>
      have hrest (hkey : key' = key ∨ ∃ member ∈ rest, member.1 = key') :
          ∃ member ∈ first :: insertMember key value rest, member.1 = key' := by
        obtain ⟨member, hmem, heq⟩ := ih hkey
        exact ⟨member, by simp [hmem], heq⟩
      unfold insertMember
      obtain rfl | ⟨member, hmem, rfl⟩ := hkey
      · split
        · exact ⟨(key', value), by simp, rfl⟩
        · split
          · exact ⟨(key', value), by simp, rfl⟩
          · exact hrest (.inl rfl)
      · split
        · exact ⟨member, by simp [hmem], rfl⟩
        · rcases List.mem_cons.mp hmem with rfl | hmem
          · split
            · exact ⟨(key, value), by simp, by assumption⟩
            · exact ⟨member, by simp, rfl⟩
          · split
            · exact ⟨member, by simp [hmem], rfl⟩
            · exact hrest (.inr ⟨member, hmem, rfl⟩)

/-- Of every key one member stays. -/
theorem exists_key_sortMembers {members : List (String × α)} {member : String × α}
    (hmem : member ∈ members) : ∃ kept ∈ sortMembers members, kept.1 = member.1 := by
  have hfold (sorted : List (String × α))
      (hkey : (∃ a ∈ members, a.1 = member.1) ∨ ∃ a ∈ sorted, a.1 = member.1) :
      ∃ kept ∈ members.foldl (fun sorted (k, v) => insertMember k v sorted) sorted,
        kept.1 = member.1 := by
    clear hmem
    induction members generalizing sorted with
    | nil =>
        obtain ⟨a, ha, -⟩ | hsorted := hkey
        · exact absurd ha (List.not_mem_nil)
        · exact hsorted
    | cons first rest ih =>
        apply ih
        obtain ⟨a, ha, heq⟩ | hsorted := hkey
        · rcases List.mem_cons.mp ha with rfl | ha
          · exact .inr (exists_key_insertMember (.inl heq.symm))
          · exact .inl ⟨a, ha, heq⟩
        · exact .inr (exists_key_insertMember (.inr hsorted))
  exact hfold [] (.inl ⟨member, hmem, rfl⟩)

end Json

/-! ### What members give -/

theorem insertNumbered_comm {α : Type} {n k : Nat} (hne : n ≠ k) (v w : α)
    (fields : List (Nat × α)) : insertNumbered n v (insertNumbered k w fields) =
      insertNumbered k w (insertNumbered n v fields) := by
  induction fields with
  | nil => grind [insertNumbered]
  | cons field fields ih => grind [insertNumbered]

/-- Sets some fields, one after the other. -/
def insertAll {α : Type} (given fields : List (Nat × α)) : List (Nat × α) :=
  given.foldl (fun fields field => insertNumbered field.1 field.2 fields) fields

theorem insertAll_cons {α : Type} (field : Nat × α) (given fields : List (Nat × α)) :
    insertAll (field :: given) fields = insertAll given (insertNumbered field.1 field.2 fields) :=
  rfl

/-- The order in which different fields are set is of no account. -/
theorem insertAll_perm {α : Type} {given given' : List (Nat × α)} (hperm : given.Perm given')
    (hne : given.Pairwise fun a b => a.1 ≠ b.1) (fields : List (Nat × α)) :
    insertAll given fields = insertAll given' fields := by
  refine hperm.foldl_eq' (List.Pairwise.forall_of_forall_of_flip (fun _ _ _ => rfl) ?_ ?_) fields
  · exact hne.imp fun h => insertNumbered_comm h.symm _ _
  · exact hne.imp fun h => insertNumbered_comm h _ _

section Gives

variable {o : CodecOptions} {s : Schema} {t : MessageType}

/-- The field that a member gives a value to, and the value. -/
def MessageType.given? (o : CodecOptions) (s : Schema) (t : MessageType) (member : String × Json) :
    Option (Nat × FieldValue) :=
  (t.keyed? member.1).bind fun f =>
    match fieldOfJson o s f.shape member.2 with
    | .ok (some v) => some (f.number, v)
    | _ => none

theorem MessageType.given?_eq_some_iff {member : String × Json} {given : Nat × FieldValue} :
    t.given? o s member = some given ↔ ∃ f, t.keyed? member.1 = some f ∧ f.number = given.1 ∧
      fieldOfJson o s f.shape member.2 = .ok (some given.2) := by
  unfold given?
  rw [Option.bind_eq_some_iff]
  apply exists_congr
  intro f
  apply and_congr_right
  intro _
  cases hread : fieldOfJson o s f.shape member.2 with
  | error e => simp
  | ok v? => cases v? <;> simp [Prod.ext_iff]

/-- Whether what is stored for members of groups is held. -/
def MessageType.HoldsGroups (t : MessageType) (fields : List (Nat × FieldValue)) : Prop :=
  ∀ f ∈ t.fields, f.oneof? ≠ none → ∀ v, fields.lookup f.number = some v → f.holds v = true

theorem MessageType.HoldsGroups.groupFree {fields : List (Nat × FieldValue)}
    (hholds : t.HoldsGroups fields) {f : Field}
    (htaken : (Message.mk fields []).groupTaken t f = false) : Message.GroupFree t fields f := by
  intro hgroup g hg hsame
  cases hstored : fields.lookup g.number with
  | none => rfl
  | some v =>
      have hunset := Message.groupTaken_eq_false_iff.mp htaken g hg ⟨hgroup, hsame.symm⟩
      have hheld := hholds g hg (hsame ▸ hgroup) v hstored
      simp [Message.has, Message.get?, Message.fields, hstored, hheld] at hunset

theorem MessageType.HoldsGroups.insertNumbered (hwf : t.WellFormed)
    {fields : List (Nat × FieldValue)} (hholds : t.HoldsGroups fields) {f : Field}
    (hf : f ∈ t.fields) {v : FieldValue} (hv : f.oneof? ≠ none → f.holds v = true) :
    t.HoldsGroups (insertNumbered f.number v fields) := by
  intro g hg hgroup w hstored
  rw [lookup_insertNumbered] at hstored
  split at hstored
  · rename_i hnumber
    obtain rfl := MessageType.eq_of_number hwf hg hf hnumber
    exact Option.some.inj hstored ▸ hv hgroup
  · exact hholds g hg hgroup w hstored

/-- The message that is read from members has what each of them gives. -/
theorem membersOfJson_eq_insertAll (hwf : t.WellFormed) {members : List (String × Json)}
    {m : Message} {fields : List (Nat × FieldValue)} (hholds : t.HoldsGroups fields)
    (hread : membersOfJson o s t (.mk fields []) members = .ok m) :
    m = .mk (insertAll (members.filterMap (t.given? o s)) fields) [] := by
  induction members generalizing fields with
  | nil => exact (Except.ok.inj hread).symm
  | cons member members ih =>
      rcases membersOfJson_cons_cases (reads_of_membersOfJson hread) (.mk fields []) members with
        ⟨hnone, hskip⟩ | ⟨f, v, hf, hv, hgives, hset⟩
      · have hgiven : t.given? o s member = none := by
          rw [Option.eq_none_iff_forall_ne_some]
          intro given hgiven
          obtain ⟨f, hkeyed, -, hv⟩ := MessageType.given?_eq_some_iff.mp hgiven
          exact hnone f ⟨hkeyed, _, hv⟩
        rw [List.filterMap_cons_none hgiven]
        exact ih hholds (hskip ▸ hread)
      · have hgiven : t.given? o s member = some (f.number, v) :=
          MessageType.given?_eq_some_iff.mpr ⟨f, ((hgives f).mpr rfl).1, rfl, hv⟩
        rw [hset] at hread
        split at hread
        · cases hread
        · rename_i htaken
          have hfree := hholds.groupFree (by simpa using htaken)
          rw [Message.set, Message.clearGroup_eq_self hfree] at hread
          rw [List.filterMap_cons_some hgiven]
          exact ih (hholds.insertNumbered hwf hf (Field.holds_of_fieldOfJson hv)) hread

/-- The entry of a map that a member gives. -/
def ScalarKind.entry? (o : CodecOptions) (s : Schema) (key : ScalarKind) (value : FieldType)
    (member : String × Json) : Option (MapKey × Value) :=
  (key.keyOfText? member.1).bind fun k =>
    match valueOfJson o s value member.2 with
    | .ok (some v) => some (k, v)
    | _ => none

theorem insertEntry_append {k : MapKey} {v : Value} {entries : List (MapKey × Value)}
    (hne : ∀ entry ∈ entries, entry.1 ≠ k) : insertEntry k v entries = entries ++ [(k, v)] := by
  induction entries with
  | nil => rfl
  | cons entry entries ih =>
      have hrest := ih fun other hmem => hne other (by simp [hmem])
      rw [insertEntry, if_neg (hne entry (by simp)), hrest]
      rfl

theorem entriesOfJson_eq_append {key : ScalarKind} {value : FieldType}
    {members : List (String × Json)} {entries done : List (MapKey × Value)}
    (hkeys : members.Pairwise fun a b => ∀ k, key.keyOfText? a.1 = some k →
      key.keyOfText? b.1 ≠ some k)
    (hdone : ∀ member ∈ members, ∀ entry ∈ done, key.keyOfText? member.1 ≠ some entry.1)
    (hread : entriesOfJson o s key value done members = .ok entries) :
    entries = done ++ members.filterMap (key.entry? o s value) := by
  induction members generalizing done with
  | nil =>
      rw [List.filterMap_nil, List.append_nil]
      exact (Except.ok.inj hread).symm
  | cons member members ih =>
      obtain ⟨hhead, htail⟩ := List.pairwise_cons.mp hkeys
      have hrest : ∀ other ∈ members, ∀ entry ∈ done, key.keyOfText? other.1 ≠ some entry.1 :=
        fun other hother => hdone other (by simp [hother])
      simp only [entriesOfJson] at hread
      obtain ⟨k, hk, hread⟩ := Except.ok_of_bind hread
      obtain ⟨v?, hv, hread⟩ := Except.ok_of_bind hread
      have hkey : key.keyOfText? member.1 = some k := by
        cases htext : key.keyOfText? member.1 with
        | none => simp [htext, JsonMismatch.orExpected] at hk
        | some k' => simpa [htext, JsonMismatch.orExpected] using hk
      cases v? with
      | none =>
          rw [List.filterMap_cons_none (by simp [ScalarKind.entry?, hkey, hv])]
          exact ih htail hrest hread
      | some v =>
          have hgiven : key.entry? o s value member = some (k, v) := by
            simp [ScalarKind.entry?, hkey, hv]
          have hnew : insertEntry k v done = done ++ [(k, v)] := by
            apply insertEntry_append
            intro entry hmem heq
            exact hdone member (by simp) entry hmem (heq ▸ hkey)
          rw [Option.elim_some, hnew] at hread
          rw [List.filterMap_cons_some hgiven, ih htail _ hread, List.append_assoc,
            List.singleton_append]
          intro other hother entry hentry
          rcases List.mem_append.mp hentry with hentry | hentry
          · exact hrest other hother entry hentry
          · rw [List.mem_singleton.mp hentry]
            exact hhead other hother k hkey

end Gives

/-! ### Reading a tidy value with its objects ordered -/

/-- Whether a value that is tidy is read with its objects ordered by key exactly where it is read
as it stands, and alike. -/
structure Json.SortsTidily (o : CodecOptions) (s : Schema) (j : Json) : Prop where
  value : ∀ type, s.Sound (type.target s) → tidyValue o s type j = true →
    Except.Agrees (Option.Rel Value.Alike) (valueOfJson o s type j) (valueOfJson o s type j.sorted)
  field : ∀ shape, s.Sound (shape.valueType.target s) → tidyField o s shape j = true →
    Except.Agrees (Option.Rel FieldValue.Alike) (fieldOfJson o s shape j)
      (fieldOfJson o s shape j.sorted)

section Tidily

variable {o : CodecOptions} {s : Schema}

theorem fieldsAlike_given {t : MessageType} {members : List (String × Json)}
    (hagrees : ∀ member ∈ members, ∀ f, t.keyed? member.1 = some f →
      Except.Agrees (Option.Rel FieldValue.Alike) (fieldOfJson o s f.shape member.2)
        (fieldOfJson o s f.shape member.2.sorted)) :
    FieldsAlike (members.filterMap (t.given? o s))
      ((sortedMembers members).filterMap (t.given? o s)) := by
  induction members with
  | nil => exact .nil
  | cons member members ih =>
      have htail := ih fun other hother => hagrees other (by simp [hother])
      have hhead := hagrees member (by simp)
      cases hkeyed : t.keyed? member.1 with
      | none => simpa [sortedMembers, MessageType.given?, hkeyed] using htail
      | some f =>
          have hboth := hhead f hkeyed
          simp only [sortedMembers, List.filterMap_cons, MessageType.given?, hkeyed,
            Option.bind_some]
          generalize fieldOfJson o s f.shape member.2 = x at hboth
          generalize fieldOfJson o s f.shape member.2.sorted = y at hboth
          cases hboth with
          | error e e' => exact htail
          | ok hrel =>
              cases hrel with
              | none => exact htail
              | some hvalue => exact .cons hvalue htail

theorem FieldsAlike.insertAll {given given' fields fields' : List (Nat × FieldValue)}
    (hgiven : FieldsAlike given given') (hfields : FieldsAlike fields fields') :
    FieldsAlike (insertAll given fields) (insertAll given' fields') := by
  induction given generalizing given' fields fields' with
  | nil =>
      cases hgiven
      exact hfields
  | cons field given ih =>
      obtain ⟨⟩ | ⟨hhead, htail⟩ := hgiven
      rw [insertAll_cons, insertAll_cons]
      exact ih htail (hfields.insertNumbered hhead)

/-- Where every key of tidy members is one that a reader reads, each member stays, as no two have
one key. -/
theorem perm_sortMembers_of_tidy {t : MessageType} {members : List (String × Json)}
    (htidy : tidyMembers o s t members = true)
    (hreads : ∀ member ∈ members, ∃ other, other.1 = member.1 ∧ t.Reads o s other) :
    (sortMembers (sortedMembers members)).Perm (sortedMembers members) := by
  obtain ⟨hapart, htidy⟩ := tidyMembers_iff.mp htidy
  apply perm_sortMembers
  rw [sortedMembers_eq_map, List.pairwise_map]
  refine hapart.imp_of_mem fun {a b} ha _ hab heq => ?_
  cases hkeyed : t.keyed? a.1 with
  | none =>
      obtain ⟨other, hkey, hother⟩ := hreads a ha
      have hstrict := htidy a ha
      rw [MessageType.Reads, hkey, hkeyed] at hother
      rw [hkeyed] at hstrict
      simp [hother] at hstrict
  | some f => exact hab f hkeyed (heq ▸ hkeyed)

theorem mem_sortedMembers {member : String × Json} {members : List (String × Json)}
    (hmem : member ∈ members) : (member.1, member.2.sorted) ∈ sortedMembers members := by
  rw [sortedMembers_eq_map]
  exact List.mem_map_of_mem hmem

section Members

variable {t : MessageType} {members : List (String × Json)} (hwf : t.WellFormed)
  (htidy : tidyMembers o s t members = true)
  (hagrees : ∀ member ∈ members, ∀ f, t.keyed? member.1 = some f →
    Except.Agrees (Option.Rel FieldValue.Alike) (fieldOfJson o s f.shape member.2)
      (fieldOfJson o s f.shape member.2.sorted))
include hwf htidy hagrees

/-- Members that are read in the order of their keys are read in their own order too. -/
theorem exists_membersOfJson_of_sorted
    (hread : ∃ m, membersOfJson o s t .empty (sortMembers (sortedMembers members)) = .ok m) :
    ∃ m, membersOfJson o s t .empty members = .ok m := by
  obtain ⟨hreads, hapart, -⟩ := (membersOfJson_ok_iff hwf).mp hread
  -- Sorting leaves a member under each key, though maybe not this one, and that one is read.
  have hperm := perm_sortMembers_of_tidy htidy fun member hmem => by
    obtain ⟨kept, hkept, hkey⟩ := exists_key_sortMembers (mem_sortedMembers hmem)
    exact ⟨kept, hkey, hreads kept hkept⟩
  have hgives {member : String × Json} (hmem : member ∈ members) {f : Field}
      (hgiven : t.Gives o s member f) : t.Gives o s (member.1, member.2.sorted) f := by
    obtain ⟨hkeyed, v, hv⟩ := hgiven
    obtain ⟨w?, hw, hrel⟩ := (hagrees member hmem f hkeyed).exists_ok_right hv
    obtain ⟨hvalue⟩ := hrel
    exact ⟨hkeyed, _, hw⟩
  refine (membersOfJson_ok_iff hwf).mpr ⟨?_, ?_, fun member _ f _ =>
    Message.groupTaken_eq_false (groupFree_nil t f)⟩
  · intro member hmem
    have hother := hreads _ (hperm.mem_iff.mpr (mem_sortedMembers hmem))
    unfold MessageType.Reads at hother ⊢
    cases hkeyed : t.keyed? member.1 with
    | none => simpa [hkeyed] using hother
    | some f =>
        simp only [hkeyed] at hother
        obtain ⟨w?, hw⟩ := hother
        obtain ⟨v?, hv, -⟩ := (hagrees member hmem f hkeyed).exists_ok_left hw
        exact ⟨v?, hv⟩
  · rw [hperm.pairwise_iff MessageType.Apart.symm, sortedMembers_eq_map, List.pairwise_map]
      at hapart
    refine hapart.imp_of_mem fun {a b} ha hb hab f g hf hg => ?_
    exact hab f g (hgives ha hf) (hgives hb hg)

theorem alike_of_membersOfJson {m m' : Message} (hm : membersOfJson o s t .empty members = .ok m)
    (hm' : membersOfJson o s t .empty (sortMembers (sortedMembers members)) = .ok m') :
    m.Alike m' := by
  have hempty : t.HoldsGroups [] := by
    intro f _ _ v hstored
    cases hstored
  have hreads := ((membersOfJson_ok_iff hwf).mp ⟨m, hm⟩).1
  have hperm := perm_sortMembers_of_tidy htidy fun member hmem => ⟨member, rfl, hreads member hmem⟩
  have hnumbers : ((sortedMembers members).filterMap (t.given? o s)).Pairwise
      fun a b => a.1 ≠ b.1 := by
    rw [List.pairwise_filterMap, sortedMembers_eq_map, List.pairwise_map]
    refine (tidyMembers_iff.mp htidy).1.imp fun {a b} hab given hgiven given' hgiven' heq => ?_
    obtain ⟨f, hf, hfn, -⟩ := MessageType.given?_eq_some_iff.mp hgiven
    obtain ⟨g, hg, hgn, -⟩ := MessageType.given?_eq_some_iff.mp hgiven'
    have hsame := MessageType.eq_of_number hwf (MessageType.mem_of_keyed? hf)
      (MessageType.mem_of_keyed? hg) (hfn.trans (heq.trans hgn.symm))
    exact hab f hf (hsame ▸ hg)
  -- What members give is inserted by number, so its order is of no account.
  rw [membersOfJson_eq_insertAll hwf hempty hm, membersOfJson_eq_insertAll hwf hempty hm',
    ← insertAll_perm (hperm.filterMap _).symm hnumbers]
  exact .mk [] ((fieldsAlike_given hagrees).insertAll .nil)

end Members

theorem membersOfJson_tidy {t : MessageType} (hsound : s.Sound t) {members : List (String × Json)}
    (htidily : ∀ member ∈ members, member.2.SortsTidily o s)
    (htidy : tidyMembers o s t members = true) :
    Except.Agrees Message.Alike (membersOfJson o s t .empty members)
      (membersOfJson o s t .empty (sortMembers (sortedMembers members))) := by
  have hwf := hsound.wellFormed
  have hagrees (member : String × Json) (hmem : member ∈ members) (f : Field)
      (hkeyed : t.keyed? member.1 = some f) :
      Except.Agrees (Option.Rel FieldValue.Alike) (fieldOfJson o s f.shape member.2)
        (fieldOfJson o s f.shape member.2.sorted) := by
    have hmember := (tidyMembers_iff.mp htidy).2 member hmem
    rw [hkeyed] at hmember
    exact (htidily member hmem).field f.shape
      (hsound.target (MessageType.mem_of_keyed? hkeyed)) hmember
  exact .of_exists_ok
    ⟨membersOfJson_sorted hsound (sortsAlike_members members),
      exists_membersOfJson_of_sorted hwf htidy hagrees⟩
    fun m m' hm hm' => alike_of_membersOfJson hwf htidy hagrees hm hm'

theorem entriesAlike_given {key : ScalarKind} {type : FieldType} {members : List (String × Json)}
    (hagrees : ∀ member ∈ members, Except.Agrees (Option.Rel Value.Alike)
      (valueOfJson o s type member.2) (valueOfJson o s type member.2.sorted)) :
    EntriesAlike (members.filterMap (key.entry? o s type))
      ((sortedMembers members).filterMap (key.entry? o s type)) := by
  induction members with
  | nil => exact .nil
  | cons member members ih =>
      have htail := ih fun other hother => hagrees other (by simp [hother])
      have hboth := hagrees member (by simp)
      cases hkey : key.keyOfText? member.1 with
      | none => simpa [sortedMembers, ScalarKind.entry?, hkey] using htail
      | some k =>
          simp only [sortedMembers, List.filterMap_cons, ScalarKind.entry?, hkey, Option.bind_some]
          generalize valueOfJson o s type member.2 = x at hboth
          generalize valueOfJson o s type member.2.sorted = y at hboth
          cases hboth with
          | error e e' => exact htail
          | ok hrel =>
              cases hrel with
              | none => exact htail
              | some hvalue => exact .cons hvalue htail

/-- Where every key of tidy members is one of the map, each member stays. -/
theorem perm_sortMembers_of_tidyEntries {key : ScalarKind} {type : FieldType}
    {members : List (String × Json)} (htidy : tidyEntries o s key type members = true)
    (hkeys : ∀ member ∈ members, ∃ k, key.keyOfText? member.1 = some k) :
    (sortMembers (sortedMembers members)).Perm (sortedMembers members) := by
  apply perm_sortMembers
  rw [sortedMembers_eq_map, List.pairwise_map]
  refine (tidyEntries_iff.mp htidy).1.imp_of_mem fun {a b} ha _ hab heq => ?_
  obtain ⟨k, hk⟩ := hkeys a ha
  exact hab k hk (heq ▸ hk)

theorem entriesOfJson_tidy {key : ScalarKind} {type : FieldType} (hsound : s.Sound (type.target s))
    {members : List (String × Json)} (htidily : ∀ member ∈ members, member.2.SortsTidily o s)
    (htidy : tidyEntries o s key type members = true) :
    Except.Agrees (fun entries stored => (FieldValue.map entries).Alike (.map stored))
      (entriesOfJson o s key type [] members)
      (entriesOfJson o s key type [] (sortMembers (sortedMembers members))) := by
  obtain ⟨hdifferent, hvalues⟩ := tidyEntries_iff.mp htidy
  have hagrees (member : String × Json) (hmem : member ∈ members) :=
    (htidily member hmem).value type hsound (hvalues member hmem)
  refine .of_exists_ok ⟨entriesOfJson_sorted hsound (sortsAlike_members members), ?_⟩ ?_
  · intro hread
    rw [entriesOfJson_ok_iff] at hread ⊢
    have hkeys (member : String × Json) (hmem : member ∈ members) :
        ∃ k, key.keyOfText? member.1 = some k := by
      obtain ⟨kept, hkept, hkey⟩ := exists_key_sortMembers (mem_sortedMembers hmem)
      exact hkey ▸ (hread kept hkept).1
    have hperm := perm_sortMembers_of_tidyEntries htidy hkeys
    intro member hmem
    obtain ⟨w?, hw⟩ := (hread _ (hperm.mem_iff.mpr (mem_sortedMembers hmem))).2
    obtain ⟨v?, hv, -⟩ := (hagrees member hmem).exists_ok_left hw
    exact ⟨hkeys member hmem, v?, hv⟩
  · intro entries stored hentries hstored
    have hkeys := fun member hmem => (entriesOfJson_ok_iff.mp ⟨entries, hentries⟩ member hmem).1
    have hperm := perm_sortMembers_of_tidyEntries htidy hkeys
    have hdifferent' : (sortMembers (sortedMembers members)).Pairwise fun a b =>
        ∀ k, key.keyOfText? a.1 = some k → key.keyOfText? b.1 ≠ some k := by
      rw [hperm.pairwise_iff fun h k hb ha => h k ha hb, sortedMembers_eq_map, List.pairwise_map]
      exact hdifferent
    rw [entriesOfJson_eq_append hdifferent (by simp) hentries,
      entriesOfJson_eq_append hdifferent' (by simp) hstored, List.nil_append, List.nil_append]
    exact .map (entriesAlike_given hagrees) (hperm.filterMap _).symm

theorem itemsOfJson_tidy {type : FieldType} (hsound : s.Sound (type.target s)) {items : List Json}
    (htidily : ∀ item ∈ items, item.SortsTidily o s) (htidy : tidyItems o s type items = true) :
    Except.Agrees ValuesAlike (itemsOfJson o s type items)
      (itemsOfJson o s type (sortedItems items)) := by
  induction items with
  | nil => exact .ok .nil
  | cons item items ih =>
      simp only [tidyItems, Bool.and_eq_true] at htidy
      refine ((htidily item (by simp)).value type hsound htidy.1).bind fun v? w? hhead => ?_
      refine (ih (fun other hother => htidily other (by simp [hother])) htidy.2).bind
        fun vs ws htail => .ok ?_
      cases hhead with
      | none => exact htail
      | some hvalue => exact .cons hvalue htail

namespace Json

theorem SortsTidily.of_eq {j : Json} (hsame : j.sorted = j) : j.SortsTidily o s where
  value type _ _ := by
    rw [hsame]
    cases valueOfJson o s type j with
    | error e => exact .error e e
    | ok v? =>
        cases v? with
        | none => exact .ok .none
        | some v => exact .ok (.some (.refl v))
  field shape _ _ := by
    rw [hsame]
    cases fieldOfJson o s shape j with
    | error e => exact .error e e
    | ok v? =>
        cases v? with
        | none => exact .ok .none
        | some v => exact .ok (.some (.refl v))

theorem agrees_leafOfJson {R : Option Value → Option Value → Prop} (type : FieldType)
    (j j' : Json) (hleaf : j.isLeaf = false) (hleaf' : j'.isLeaf = false) :
    Except.Agrees R (leafOfJson o type j) (leafOfJson o type j') := by
  cases hread : leafOfJson o type j with
  | ok v? => exact absurd (isLeaf_of_leafOfJson hread) (by simp [hleaf])
  | error e =>
      cases hread' : leafOfJson o type j' with
      | ok v? => exact absurd (isLeaf_of_leafOfJson hread') (by simp [hleaf'])
      | error e' => exact .error e e'

theorem agrees_map_leafOfJson {R : Option FieldValue → Option FieldValue → Prop} (type : FieldType)
    (j j' : Json) (hleaf : j.isLeaf = false) (hleaf' : j'.isLeaf = false) :
    Except.Agrees R ((leafOfJson o type j).map fun v? => v?.map .single)
      ((leafOfJson o type j').map fun v? => v?.map .single) := by
  have hneither : Except.Agrees (fun _ _ => False) (leafOfJson o type j) (leafOfJson o type j') :=
    agrees_leafOfJson type j j' hleaf hleaf'
  exact hneither.map fun _ _ hno => hno.elim

theorem SortsTidily.object {members : List (String × Json)}
    (htidily : ∀ member ∈ members, member.2.SortsTidily o s) :
    (Json.object members).SortsTidily o s where
  value type hsound htidy := by
    cases type with
    | message name =>
        exact (membersOfJson_tidy hsound htidily htidy).map fun m m' halike =>
          .some (.message halike)
    | _ =>
        simp only [valueOfJson, sorted]
        exact agrees_leafOfJson _ _ _ rfl rfl
  field shape hsound htidy := by
    cases shape with
    | single type presence default? =>
        cases type with
        | message name =>
            exact (membersOfJson_tidy hsound htidily htidy).map fun m m' halike =>
              .some (.single (.message halike))
        | _ =>
            simp only [fieldOfJson, sorted]
            exact agrees_map_leafOfJson _ _ _ rfl rfl
    | repeated type packed => exact .error _ _
    | map key type =>
        exact (entriesOfJson_tidy hsound htidily htidy).map fun entries stored halike =>
          .some halike

theorem SortsTidily.array {items : List Json} (htidily : ∀ item ∈ items, item.SortsTidily o s) :
    (Json.array items).SortsTidily o s where
  value type hsound htidy := agrees_leafOfJson type _ _ rfl rfl
  field shape hsound htidy := by
    cases shape with
    | single type presence default? => exact agrees_map_leafOfJson type _ _ rfl rfl
    | repeated type packed =>
        exact (itemsOfJson_tidy hsound htidily htidy).map fun vs ws halike => .some (.list halike)
    | map key type => exact .error _ _

mutual
theorem sortsTidily : ∀ j : Json, j.SortsTidily o s
  | .object members => .object (sortsTidily_members members)
  | .array items => .array (sortsTidily_items items)
  | .null | .bool _ | .number _ | .string _ | .unreadable => .of_eq rfl

theorem sortsTidily_members : ∀ members : List (String × Json), ∀ member ∈ members,
    member.2.SortsTidily o s
  | [], _, hmem => absurd hmem (List.not_mem_nil)
  | (_, j) :: rest, member, hmem => by
      rcases List.mem_cons.mp hmem with rfl | hmem
      · exact sortsTidily j
      · exact sortsTidily_members rest member hmem

theorem sortsTidily_items : ∀ items : List Json, ∀ item ∈ items, item.SortsTidily o s
  | [], _, hmem => absurd hmem (List.not_mem_nil)
  | j :: rest, item, hmem => by
      rcases List.mem_cons.mp hmem with heq | hmem
      · exact heq ▸ sortsTidily j
      · exact sortsTidily_items rest item hmem
end

end Json

/-- A tidy value is read with its objects ordered by key exactly where it is read as it stands, and
as a message that differs at most in the order of map entries. -/
theorem Message.agrees_ofJson_sorted {t : MessageType} (hsound : s.Sound t) {j : Json}
    (htidy : j.isTidy o s t = true) :
    Except.Agrees Message.Alike (Message.ofJson o s t j) (Message.ofJson o s t j.sorted) := by
  cases j with
  | object members => exact membersOfJson_tidy hsound (sortsTidily_members members) htidy
  | _ => exact .error _ _

end Tidily

end GrpcContract
