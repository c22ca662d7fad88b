import GrpcContract.Proofs.SpelledOut
import GrpcContract.Proofs.WireReading

/-!
# Messages read from the wire

Whatever the bytes are, a message that is read from them is one of its type: each value is one of
its field, the keys of a map are different, and at most one member of each group is set.
-/

namespace GrpcContract

/-! ### Typed parts -/

theorem fieldsConform_iff {s : Schema} {t : MessageType} {fields : List (Nat × FieldValue)} :
    fieldsConform s t fields = true ↔
      ∀ entry ∈ fields, ∃ f, t.field? entry.1 = some f ∧ entry.2.conforms s f.shape = true := by
  induction fields with
  | nil => simp [fieldsConform]
  | cons entry fields ih => simp [fieldsConform, ih, Option.any_eq_true]

theorem valuesConform_append (s : Schema) (type : FieldType) (vs ws : List Value) :
    valuesConform s type (vs ++ ws) = (valuesConform s type vs && valuesConform s type ws) := by
  induction vs with
  | nil => rfl
  | cons v vs ih => simp [valuesConform, ih, Bool.and_assoc]

theorem Message.conforms_empty (s : Schema) (t : MessageType) :
    Message.empty.conforms s t = true := by
  simp [Message.empty, Message.conforms, fieldsConform]

theorem mem_insertEntry {key : MapKey} {value : Value} {entries : List (MapKey × Value)}
    {entry : MapKey × Value} (hmem : entry ∈ insertEntry key value entries) :
    entry = (key, value) ∨ entry ∈ entries := by
  induction entries with
  | nil => exact .inl (by simpa [insertEntry] using hmem)
  | cons first entries ih =>
      unfold insertEntry at hmem
      split at hmem
      · rcases List.mem_cons.mp hmem with heq | hrest
        · exact .inl heq
        · exact .inr (List.mem_cons_of_mem _ hrest)
      · rcases List.mem_cons.mp hmem with rfl | hrest
        · exact .inr List.mem_cons_self
        · rcases ih hrest with heq | hrest
          · exact .inl heq
          · exact .inr (List.mem_cons_of_mem _ hrest)

theorem entriesConform_insertEntry {s : Schema} {kind : ScalarKind} {type : FieldType}
    {key : MapKey} {value : Value} {entries : List (MapKey × Value)}
    (hentries : entriesConform s kind type entries = true)
    (hkey : kind.admits key.toScalar = true) (hvalue : value.conforms s type = true) :
    entriesConform s kind type (insertEntry key value entries) = true := by
  induction entries with
  | nil => simp [insertEntry, entriesConform, hkey, hvalue]
  | cons first entries ih =>
      simp only [entriesConform, Bool.and_eq_true] at hentries
      unfold insertEntry
      split
      · simp [entriesConform, hkey, hvalue, hentries.2]
      · simp [entriesConform, hentries.1, ih hentries.2]

/-- An entry takes the place of the one with its key. -/
theorem pairwise_insertEntry {key : MapKey} {value : Value} {entries : List (MapKey × Value)}
    (hkeys : entries.Pairwise fun a b => a.1 ≠ b.1) :
    (insertEntry key value entries).Pairwise fun a b => a.1 ≠ b.1 := by
  induction entries with
  | nil => simp [insertEntry]
  | cons first entries ih =>
      rw [List.pairwise_cons] at hkeys
      unfold insertEntry
      split
      · rename_i heq
        exact List.pairwise_cons.mpr ⟨fun b hb => heq ▸ hkeys.1 b hb, hkeys.2⟩
      · rename_i hne
        refine List.pairwise_cons.mpr ⟨?_, ih hkeys.2⟩
        intro b hb
        rcases mem_insertEntry hb with rfl | hb
        · exact hne
        · exact hkeys.1 b hb

theorem Scalar.toScalar_of_toMapKey? {x : Scalar} {k : MapKey} (hkey : x.toMapKey? = some k) :
    k.toScalar = x := by
  cases x <;> cases hkey <;> rfl

/-! ### Setting a field -/

theorem MessageType.eq_of_number {t : MessageType} (hwf : t.WellFormed) {f g : Field}
    (hf : f ∈ t.fields) (hg : g ∈ t.fields) (hnumber : f.number = g.number) : f = g :=
  eq_of_pairwise_of_key hwf.1 hf hg hnumber

theorem mem_insertNumbered {α : Type} {n : Nat} {v : α} {entries : List (Nat × α)}
    {entry : Nat × α} (hmem : entry ∈ insertNumbered n v entries) :
    entry = (n, v) ∨ entry ∈ entries := by
  induction entries with
  | nil => exact .inl (by simpa [insertNumbered] using hmem)
  | cons first entries ih =>
      unfold insertNumbered at hmem
      split at hmem
      · exact List.mem_cons.mp hmem
      · split at hmem
        · rcases List.mem_cons.mp hmem with heq | hrest
          · exact .inl heq
          · exact .inr (List.mem_cons_of_mem _ hrest)
        · rcases List.mem_cons.mp hmem with rfl | hrest
          · exact .inr List.mem_cons_self
          · rcases ih hrest with heq | hrest
            · exact .inl heq
            · exact .inr (List.mem_cons_of_mem _ hrest)

namespace Message

variable {s : Schema} {t : MessageType} {m : Message} {f : Field} {v : FieldValue}

theorem get?_without (m : Message) (drop : Nat → Bool) (k : Nat) :
    (m.without drop).get? k = if drop k then none else m.get? k := by
  obtain ⟨stored, unknown⟩ := m
  simp only [without, get?, fields]
  induction stored with
  | nil => simp
  | cons entry stored ih =>
      obtain ⟨n, v⟩ := entry
      rw [List.filter_cons, lookup_cons_ite]
      by_cases hk : k = n
      · subst hk
        by_cases hdrop : drop k = true
        · simpa [hdrop] using ih
        · simp [hdrop]
      · by_cases hdrop : drop n = true <;> simp [hdrop, hk, lookup_cons_ite, ih]

theorem mem_clearGroup {entry : Nat × FieldValue} (hmem : entry ∈ (m.clearGroup t f).fields) :
    entry ∈ m.fields := by
  unfold clearGroup at hmem
  split at hmem
  · exact hmem
  · exact (List.mem_filter.mp hmem).1

/-- Clearing a group sets nothing, and leaves no other member of the group set. -/
theorem lookup_clearGroup {g : Field} (hg : g ∈ t.fields)
    (hset : ((m.clearGroup t f).get? g.number).isSome = true) :
    (m.get? g.number).isSome = true ∧
      (g.oneof?.isSome = true → g.oneof? = f.oneof? → g.number = f.number) := by
  unfold clearGroup at hset
  split at hset
  · rename_i hnone
    exact ⟨hset, fun hsome heq => by simp [heq, hnone] at hsome⟩
  · rename_i group hgroup
    rw [get?_without] at hset
    split at hset
    · simp at hset
    · rename_i hkept
      refine ⟨hset, ?_⟩
      intro _ heq
      rw [Bool.not_eq_true, List.any_eq_false] at hkept
      have hother := hkept g hg
      by_cases hnumber : g.number = f.number
      · exact hnumber
      · simp [hnumber, heq, hgroup] at hother

theorem conforms_set (hwf : t.WellFormed) (hf : f ∈ t.fields) (hm : m.conforms s t = true)
    (hv : v.conforms s f.shape = true) : (m.set t f v).conforms s t = true := by
  obtain ⟨stored, unknown⟩ := m
  simp only [conforms, Bool.and_eq_true, decide_eq_true_eq] at hm
  obtain ⟨hfields, hgroups⟩ := hm
  rw [fieldsConform_iff] at hfields
  simp only [set, put, conforms, Bool.and_eq_true, decide_eq_true_eq]
  constructor
  · rw [fieldsConform_iff]
    intro entry hmem
    rcases mem_insertNumbered hmem with rfl | hkept
    · exact ⟨f, MessageType.field?_number hwf hf, hv⟩
    · exact hfields entry (mem_clearGroup hkept)
  · intro g hg h hh hgroup hsame hgset hhset
    have hlookup (k : Field) (hk : k ∈ t.fields)
        (hset : ((insertNumbered f.number v
          ((Message.mk stored unknown).clearGroup t f).fields).lookup k.number).isSome = true) :
        k = f ∨ (stored.lookup k.number).isSome = true ∧
          (k.oneof?.isSome = true → k.oneof? ≠ f.oneof?) := by
      rw [lookup_insertNumbered] at hset
      split at hset
      · rename_i hnumber
        exact .inl (MessageType.eq_of_number hwf hk hf hnumber)
      · rename_i hnumber
        obtain ⟨hstored, hclear⟩ := lookup_clearGroup hk hset
        exact .inr ⟨hstored, fun hsome heq => hnumber (hclear hsome heq)⟩
    rcases hlookup g hg hgset with rfl | ⟨hgstored, hgother⟩
    · rcases hlookup h hh hhset with rfl | ⟨-, hhother⟩
      · rfl
      · exact absurd hsame.symm (hhother (hsame ▸ hgroup))
    · rcases hlookup h hh hhset with rfl | ⟨hhstored, -⟩
      · exact absurd hsame (hgother hgroup)
      · exact hgroups g hg h hh hgroup hsame hgstored hhstored

end Message

/-! ### Reading records -/

theorem ScalarKind.admits_ofWire? {kind : ScalarKind} {w : WireValue} {x : Scalar}
    (hread : kind.ofWire? w = some x) : kind.admits x = true := by
  cases kind <;> cases w <;> simp only [ofWire?, Option.some.injEq, reduceCtorEq] at hread <;>
    first
      | subst hread; rfl
      | (obtain ⟨cs, -, rfl⟩ := Option.map_eq_some_iff.mp hread; rfl)

theorem FieldType.admits_ofWire? {type : FieldType} {w : WireValue} {x : Scalar}
    (hread : type.ofWire? w = some x) : type.admits x = true := by
  cases type with
  | scalar kind => exact ScalarKind.admits_ofWire? hread
  | enum e =>
      cases w <;> simp only [ofWire?, Option.some.injEq, reduceCtorEq] at hread
      subst hread
      rfl
  | message name => cases hread

theorem FieldType.conforms_readPacked {s : Schema} {type : FieldType} {fuel : Nat}
    {bs : List UInt8} {xs : List Scalar} (hread : type.readPacked fuel bs = some xs) :
    valuesConform s type (xs.map .scalar) = true := by
  induction fuel generalizing bs xs with
  | zero =>
      cases bs with
      | nil =>
          cases hread
          rfl
      | cons b bs => cases hread
  | succ fuel ih =>
      cases bs with
      | nil =>
          cases hread
          rfl
      | cons b bs =>
          simp only [readPacked, Option.bind_eq_bind, Option.bind_eq_some_iff, Option.pure_def,
            Option.some.injEq] at hread
          obtain ⟨⟨w, rest⟩, -, x, hx, ys, hys, rfl⟩ := hread
          simp [valuesConform, Value.conforms, admits_ofWire? hx, ih hys]

/-- Whether a reader of nested messages keeps messages of their types. -/
def MergeBytes.Keeps (nested : MergeBytes) (s : Schema) : Prop :=
  ∀ t m bs m', s.Sound t → m.conforms s t = true → nested t m bs = some m' →
    m'.conforms s t = true

section Reading

variable {nested : MergeBytes} {s : Schema} (hnested : nested.Keeps s)
include hnested

theorem Value.conforms_merge {type : FieldType} (hsound : s.Sound (type.target s))
    {old? : Option Value} (hold : ∀ v, old? = some v → v.conforms s type = true) {w : WireValue}
    {v : Value} (hread : Value.merge nested s type old? w = some v) :
    v.conforms s type = true := by
  obtain ⟨name, old, bs, m, rfl, hbefore, hm, rfl⟩ | ⟨x, hx, rfl⟩ := Value.merge_cases hread
  · apply hnested _ _ _ _ hsound _ hm
    rcases hbefore with hbefore | rfl
    · exact hold (.message old) hbefore
    · exact Message.conforms_empty s _
  · exact FieldType.admits_ofWire? hx

theorem FieldType.conforms_readItems {type : FieldType} (hsound : s.Sound (type.target s))
    {w : WireValue} {vs : List Value} (hread : type.readItems nested s w = some vs) :
    valuesConform s type vs = true := by
  obtain ⟨v, hv, rfl⟩ | ⟨bs, xs, hxs, rfl⟩ := FieldType.readItems_cases hread
  · have hvalue := Value.conforms_merge hnested hsound (by simp) hv
    simp [valuesConform, hvalue]
  · exact conforms_readPacked hxs

omit hnested in
theorem FieldType.conforms_entryDefault (type : FieldType) :
    type.entryDefault.conforms s type = true := by
  cases type with
  | message name => exact Message.conforms_empty s _
  | scalar kind => exact kind.admits_zero
  | enum e => rfl

theorem Shape.Merges.conforms {depth : Nat} {shape : Shape}
    (hsound : s.Sound (shape.valueType.target s)) {old? : Option FieldValue}
    (hold : ∀ v, old? = some v → v.conforms s shape = true) {w : WireValue} {v : FieldValue}
    (hmerges : shape.Merges nested s depth old? w v) : v.conforms s shape = true := by
  cases hmerges with
  | single hbefore hread =>
      apply Value.conforms_merge hnested hsound _ hread
      intro u hu
      exact hold (.single u) (hbefore u hu)
  | repeated hbefore hread =>
      simp only [FieldValue.conforms, valuesConform_append, Bool.and_eq_true]
      refine ⟨?_, FieldType.conforms_readItems hnested hsound hread⟩
      rcases hbefore with hbefore | rfl
      · exact hold (.list _) hbefore
      · rfl
  | @map kind type old records key k value hbefore hread hkey =>
      obtain ⟨hadmits, hvalue⟩ : kind.admits key = true ∧ value.conforms s type = true := by
        apply readEntry_keeps _ _ kind.admits_zero (FieldType.conforms_entryDefault type) hread
        · intro w x hx
          exact ScalarKind.admits_ofWire? hx
        · intro old w v hold hv
          exact Value.conforms_merge hnested hsound (fun u hu => Option.some.inj hu ▸ hold) hv
      rw [← Scalar.toScalar_of_toMapKey? hkey] at hadmits
      have hentries : entriesConform s kind type old = true ∧
          old.Pairwise fun a b => a.1 ≠ b.1 := by
        rcases hbefore with hbefore | rfl
        · simpa [FieldValue.conforms] using hold (.map old) hbefore
        · exact ⟨rfl, .nil⟩
      simp only [FieldValue.conforms, Bool.and_eq_true, decide_eq_true_eq]
      exact ⟨entriesConform_insertEntry hentries.1 hadmits hvalue,
        pairwise_insertEntry hentries.2⟩

theorem Message.conforms_mergeRecord {depth : Nat} {t : MessageType} (hsound : s.Sound t)
    {m m' : Message} (hm : m.conforms s t = true) {record : Nat × WireValue}
    (hread : m.mergeRecord nested s depth t record = some m') : m'.conforms s t = true := by
  obtain rfl | ⟨f, v, hf, hmerges, rfl⟩ := mergeRecord_cases hread
  · obtain ⟨stored, unknown⟩ := m
    exact hm
  · apply conforms_set hsound.wellFormed hf hm
    apply hmerges.conforms hnested (hsound.target hf)
    intro old hold
    obtain ⟨stored, unknown⟩ := m
    simp only [conforms, Bool.and_eq_true] at hm
    obtain ⟨g, hg, hconf⟩ := conforms_of_lookup hm.1 hold
    rw [MessageType.field?_number hsound.wellFormed hf] at hg
    exact Option.some.inj hg ▸ hconf

end Reading

theorem Message.keeps_mergeBytes (s : Schema) (levels : Nat) :
    MergeBytes.Keeps (Message.mergeBytes s levels) s := by
  induction levels with
  | zero =>
      intro t m bs m' hsound hm hread
      cases hread
  | succ levels ih =>
      intro t m bs m' hsound hm hread
      apply mergeBytes_keeps _ hm hread
      intro m record m' hm hrecord
      exact conforms_mergeRecord ih hsound hm hrecord

/-- What is read from the wire as a message of a type is one. -/
theorem Message.conforms_of_read? {s : Schema} {t : MessageType} (hsound : s.Sound t)
    {bs : List UInt8} {m : Message} (hread : Message.read? s t bs = some m) :
    m.conforms s t = true :=
  keeps_mergeBytes s maxLevels t .empty bs m hsound (conforms_empty s t) hread

end GrpcContract
