import GrpcContract.Proofs.MessageJson
import GrpcContract.Proofs.WireMessages

/-!
# How deeply messages nest

The wire and the text of a message count its nesting differently. On the wire only messages count;
in the text a list or a map of messages is a level of its own, and what is not set is spelled out
below the last message.
-/

namespace GrpcContract

mutual
/-- How many levels of messages there are in a value. -/
def Value.levels : Value → Nat
  | .scalar _ => 0
  | .message m => m.levels

def FieldValue.levels : FieldValue → Nat
  | .single v => v.levels
  | .list vs => valuesLevels vs
  | .map entries => entriesLevels entries

/-- How many levels of messages there are, the message itself included. -/
def Message.levels : Message → Nat
  | .mk fields _ => fieldsLevels fields + 1

def valuesLevels : List Value → Nat
  | [] => 0
  | v :: rest => max v.levels (valuesLevels rest)

def entriesLevels : List (MapKey × Value) → Nat
  | [] => 0
  | (_, v) :: rest => max v.levels (entriesLevels rest)

def fieldsLevels : List (Nat × FieldValue) → Nat
  | [] => 0
  | (_, v) :: rest => max v.levels (fieldsLevels rest)
end

theorem valuesLevels_le_iff {vs : List Value} {n : Nat} :
    valuesLevels vs ≤ n ↔ ∀ v ∈ vs, v.levels ≤ n := by
  induction vs with
  | nil => simp [valuesLevels]
  | cons v vs ih => simp only [valuesLevels, Nat.max_le, List.forall_mem_cons, ih]

theorem entriesLevels_le_iff {entries : List (MapKey × Value)} {n : Nat} :
    entriesLevels entries ≤ n ↔ ∀ entry ∈ entries, entry.2.levels ≤ n := by
  induction entries with
  | nil => simp [entriesLevels]
  | cons entry entries ih => simp only [entriesLevels, Nat.max_le, List.forall_mem_cons, ih]

theorem fieldsLevels_le_iff {fields : List (Nat × FieldValue)} {n : Nat} :
    fieldsLevels fields ≤ n ↔ ∀ entry ∈ fields, entry.2.levels ≤ n := by
  induction fields with
  | nil => simp [fieldsLevels]
  | cons entry fields ih => simp only [fieldsLevels, Nat.max_le, List.forall_mem_cons, ih]

theorem Message.levels_le_iff {m : Message} {n : Nat} :
    m.levels ≤ n + 1 ↔ ∀ entry ∈ m.fields, entry.2.levels ≤ n := by
  obtain ⟨stored, unknown⟩ := m
  simp [levels, fields, fieldsLevels_le_iff]

/-! ### Levels on the wire -/

theorem Message.levels_of_get? {m : Message} {n : Nat} (hm : m.levels ≤ n + 1) {k : Nat}
    {v : FieldValue} (hstored : m.get? k = some v) : v.levels ≤ n :=
  levels_le_iff.mp hm (k, v) (mem_of_lookup hstored)

theorem Message.levels_set {t : MessageType} {m : Message} {f : Field} {v : FieldValue} {n : Nat}
    (hm : m.levels ≤ n + 1) (hv : v.levels ≤ n) : (m.set t f v).levels ≤ n + 1 := by
  rw [levels_le_iff] at hm ⊢
  intro entry hmem
  rcases mem_insertNumbered hmem with rfl | hkept
  · exact hv
  · exact hm entry (mem_clearGroup hkept)

/-- Whether a reader of nested messages keeps them within a number of levels. -/
def MergeBytes.Within (nested : MergeBytes) (n : Nat) : Prop :=
  ∀ t m bs m', m.levels ≤ n → nested t m bs = some m' → m'.levels ≤ n

section Reading

variable {nested : MergeBytes} {s : Schema} {n : Nat} (hnested : nested.Within (n + 1))
include hnested

theorem Value.levels_merge {type : FieldType} {old? : Option Value}
    (hold : ∀ v, old? = some v → v.levels ≤ n + 1) {w : WireValue} {v : Value}
    (hread : Value.merge nested s type old? w = some v) : v.levels ≤ n + 1 := by
  obtain ⟨name, old, bs, m, -, hbefore, hm, rfl⟩ | ⟨x, -, rfl⟩ := Value.merge_cases hread
  · apply hnested _ _ _ _ _ hm
    rcases hbefore with hbefore | rfl
    · exact hold (.message old) hbefore
    · exact Nat.succ_le_succ (Nat.zero_le n)
  · exact Nat.zero_le _

theorem FieldType.levels_readItems {type : FieldType} {w : WireValue} {vs : List Value}
    (hread : type.readItems nested s w = some vs) : ∀ v ∈ vs, v.levels ≤ n + 1 := by
  intro v hmem
  obtain ⟨u, hu, rfl⟩ | ⟨bs, xs, -, rfl⟩ := FieldType.readItems_cases hread
  · obtain rfl := List.mem_singleton.mp hmem
    exact Value.levels_merge hnested (by simp) hu
  · obtain ⟨x, -, rfl⟩ := List.mem_map.mp hmem
    exact Nat.zero_le _

theorem Shape.Merges.levels {depth : Nat} {shape : Shape} {old? : Option FieldValue}
    (hold : ∀ v, old? = some v → v.levels ≤ n + 1) {w : WireValue} {v : FieldValue}
    (hmerges : shape.Merges nested s depth old? w v) : v.levels ≤ n + 1 := by
  cases hmerges with
  | single hbefore hread =>
      apply Value.levels_merge hnested _ hread
      intro u hu
      exact hold (.single u) (hbefore u hu)
  | repeated hbefore hread =>
      rw [FieldValue.levels, valuesLevels_le_iff]
      intro v hmem
      rcases List.mem_append.mp hmem with hthere | hnew
      · rcases hbefore with hbefore | rfl
        · exact valuesLevels_le_iff.mp (hold (.list _) hbefore) v hthere
        · cases hthere
      · exact FieldType.levels_readItems hnested hread v hnew
  | @map kind type old records key k value hbefore hread hkey =>
      have hdefault : type.entryDefault.levels ≤ n + 1 := by
        cases type with
        | message name => exact Nat.succ_le_succ (Nat.zero_le n)
        | _ => exact Nat.zero_le _
      have hvalue : value.levels ≤ n + 1 := by
        apply (readEntry_keeps (P := fun _ => True) _ _ trivial hdefault hread).2
        · intro w x hx
          trivial
        · intro old w v hold hv
          exact Value.levels_merge hnested (fun u hu => Option.some.inj hu ▸ hold) hv
      rw [FieldValue.levels, entriesLevels_le_iff]
      intro entry hmem
      rcases mem_insertEntry hmem with rfl | hthere
      · exact hvalue
      · rcases hbefore with hbefore | rfl
        · exact entriesLevels_le_iff.mp (hold (.map old) hbefore) entry hthere
        · cases hthere

theorem Message.levels_mergeRecord {depth : Nat} {t : MessageType} {m m' : Message}
    (hm : m.levels ≤ n + 2) {record : Nat × WireValue}
    (hread : m.mergeRecord nested s depth t record = some m') : m'.levels ≤ n + 2 := by
  obtain rfl | ⟨f, v, -, hmerges, rfl⟩ := mergeRecord_cases hread
  · obtain ⟨stored, unknown⟩ := m
    exact hm
  · apply levels_set hm
    apply hmerges.levels hnested
    intro old hold
    exact levels_of_get? hm hold

end Reading

/-- A map entry that tells no message holds one that was not read, so there is a level more than
are read. -/
theorem Message.within_mergeBytes (s : Schema) (n : Nat) :
    MergeBytes.Within (Message.mergeBytes s n) (n + 1) := by
  induction n with
  | zero =>
      intro t m bs m' hm hread
      cases hread
  | succ n ih =>
      intro t m bs m' hm hread
      apply mergeBytes_keeps _ hm hread
      intro m record m' hm hrecord
      exact levels_mergeRecord ih hm hrecord

theorem Message.levels_of_read? {s : Schema} {t : MessageType} {bs : List UInt8} {m : Message}
    (hread : Message.read? s t bs = some m) : m.levels ≤ maxLevels + 1 :=
  within_mergeBytes s maxLevels t .empty bs m (Nat.succ_le_succ (Nat.zero_le _)) hread

/-! ### Levels of the text -/

namespace Tree

theorem fieldsDepth_le_iff {fields : List (String × Tree)} {n : Nat} :
    fieldsDepth fields ≤ n ↔ ∀ field ∈ fields, field.2.depth ≤ n := by
  induction fields with
  | nil => simp [fieldsDepth]
  | cons field fields ih => simp only [fieldsDepth, Nat.max_le, List.forall_mem_cons, ih]

theorem itemsDepth_le_iff {items : List Tree} {n : Nat} :
    itemsDepth items ≤ n ↔ ∀ t ∈ items, t.depth ≤ n := by
  induction items with
  | nil => simp [itemsDepth]
  | cons t items ih => simp only [itemsDepth, Nat.max_le, List.forall_mem_cons, ih]

theorem entriesDepth_le_iff {entries : List (Leaf × Tree)} {n : Nat} :
    entriesDepth entries ≤ n ↔ ∀ entry ∈ entries, entry.2.depth ≤ n := by
  induction entries with
  | nil => simp [entriesDepth]
  | cons entry entries ih => simp only [entriesDepth, Nat.max_le, List.forall_mem_cons, ih]

end Tree

theorem Message.depth_of_shown {s : Schema} {t : MessageType} {fields : List (Nat × FieldValue)}
    (unknown : List (Nat × WireValue)) {f : Field} (hshown : f ∈ t.shown fields) :
    (((fieldTrees s t fields).lookup f.number).getD (f.defaultTree s)).depth + 1 ≤
      ((Message.mk fields unknown).toTree s t).depth := by
  rw [Message.toTree, MessageType.assemble_eq]
  apply Nat.succ_le_succ
  apply Tree.fieldsDepth_le_iff.mp (Nat.le_refl _) (f.name, _)
  exact List.mem_map.mpr ⟨f, hshown, rfl⟩

theorem Field.depth_bareTree (f : Field) : f.bareTree.depth ≤ 1 := by
  unfold bareTree
  split <;> simp [Tree.depth, Tree.fieldsDepth, Tree.itemsDepth, Tree.entriesDepth]

theorem MessageType.depth_defaultTree (t : MessageType) : t.defaultTree.depth ≤ 2 := by
  apply Nat.succ_le_succ
  rw [Tree.fieldsDepth_le_iff]
  intro field hmem
  obtain ⟨f, -, hf⟩ := List.mem_filterMap.mp hmem
  split at hf
  · cases hf
  · obtain rfl := Option.some.inj hf
    exact f.depth_bareTree

theorem Field.depth_defaultTree (s : Schema) (f : Field) : (f.defaultTree s).depth ≤ 2 := by
  unfold defaultTree
  split
  · exact MessageType.depth_defaultTree _
  · exact Nat.le_succ_of_le f.depth_bareTree

def FieldType.isMessage : FieldType → Bool
  | message _ => true
  | _ => false

def Shape.isSingle : Shape → Bool
  | single .. => true
  | _ => false

/-- Whether no list and no map of messages is in a message of the type, however deep. -/
def Schema.OneByOne (s : Schema) (t : MessageType) : Prop :=
  ∀ u, s.Uses t u → ∀ f ∈ u.fields, f.shape.valueType.isMessage = true → f.shape.isSingle = true

/-- Whether a message costs its text at most `k` levels: one for itself, and one for the list or
map it is in. -/
def Schema.Costs (s : Schema) (t : MessageType) (k : Nat) : Prop :=
  2 ≤ k ∨ 1 ≤ k ∧ s.OneByOne t

namespace Schema

variable {s : Schema} {t : MessageType} {k : Nat}

theorem Costs.pos (hcost : s.Costs t k) : 1 ≤ k := by
  rcases hcost with hk | ⟨hk, -⟩ <;> omega

theorem Costs.target (hcost : s.Costs t k) {f : Field} (hf : f ∈ t.fields) :
    s.Costs (f.shape.valueType.target s) k :=
  hcost.imp_right fun ⟨hk, hsingle⟩ => ⟨hk, fun u huses => hsingle u (.step hf huses)⟩

theorem Costs.two_le (hcost : s.Costs t k) {f : Field} (hf : f ∈ t.fields)
    (hmessage : f.shape.valueType.isMessage = true) (hmany : f.shape.isSingle = false) : 2 ≤ k := by
  rcases hcost with hk | ⟨-, hsingle⟩
  · exact hk
  · have hone := hsingle t (.refl t) f hf hmessage
    simp [hmany] at hone

end Schema

section Depth

variable (s : Schema) {k : Nat}

mutual
/-- One value of a list or map. -/
theorem Value.depth_toTree : ∀ (type : FieldType) (v : Value), s.Costs (type.target s) k →
    (type.isMessage = true → 2 ≤ k) → v.conforms s type = true →
    (v.toTree s type).depth ≤ k * v.levels + 1
  | _, .scalar _, _, _, _ => Nat.zero_le _
  | .message name, .message m, hcost, hmany, hconf => by
      have hm := Message.depth_toTree (s.messageType name) m hcost hconf
      have hk := hmany rfl
      simp only [Value.toTree, Value.levels, FieldType.target]
      omega
  | .scalar _, .message _, _, _, hconf => absurd hconf (by simp [Value.conforms])
  | .enum _, .message _, _, _, hconf => absurd hconf (by simp [Value.conforms])

theorem FieldValue.depth_toTree : ∀ (shape : Shape) (v : FieldValue),
    s.Costs (shape.valueType.target s) k →
    (shape.valueType.isMessage = true → shape.isSingle = false → 2 ≤ k) →
    v.conforms s shape = true → (v.toTree s shape.valueType).depth ≤ k * v.levels + 2
  | .single _ _ _, .single (.scalar _), _, _, _ => Nat.zero_le _
  | .single (.message name) _ _, .single (.message m), hcost, _, hconf => by
      have hm := Message.depth_toTree (s.messageType name) m hcost hconf
      have hk := hcost.pos
      simp only [FieldValue.toTree, Value.toTree, FieldValue.levels, Value.levels,
        Shape.valueType, FieldType.target]
      omega
  | .repeated type _, .list vs, hcost, hmany, hconf => by
      have hitems := itemsDepth_listTrees type vs hcost (fun hmessage => hmany hmessage rfl) hconf
      exact Nat.succ_le_succ hitems
  | .map key type, .map entries, hcost, hmany, hconf => by
      simp only [FieldValue.conforms, Bool.and_eq_true] at hconf
      have hentries := depth_entryTrees key type entries hcost
        (fun hmessage => hmany hmessage rfl) hconf.1
      apply Nat.succ_le_succ
      rw [Tree.entriesDepth_le_iff]
      intro entry hmem
      exact hentries entry ((List.mergeSort_perm ..).mem_iff.mp hmem)
  | .single (.scalar _) _ _, .single (.message _), _, _, hconf =>
      absurd hconf (by simp [FieldValue.conforms, Value.conforms])
  | .single (.enum _) _ _, .single (.message _), _, _, hconf =>
      absurd hconf (by simp [FieldValue.conforms, Value.conforms])
  | .single .., .list _, _, _, hconf => absurd hconf (by simp [FieldValue.conforms])
  | .single .., .map _, _, _, hconf => absurd hconf (by simp [FieldValue.conforms])
  | .repeated .., .single _, _, _, hconf => absurd hconf (by simp [FieldValue.conforms])
  | .repeated .., .map _, _, _, hconf => absurd hconf (by simp [FieldValue.conforms])
  | .map .., .single _, _, _, hconf => absurd hconf (by simp [FieldValue.conforms])
  | .map .., .list _, _, _, hconf => absurd hconf (by simp [FieldValue.conforms])

/-- What is spelled out takes at most two levels below the last message. -/
theorem Message.depth_toTree : ∀ (t : MessageType) (m : Message), s.Costs t k →
    m.conforms s t = true → (m.toTree s t).depth + k ≤ k * m.levels + 3
  | t, .mk fields _, hcost, hconf => by
      simp only [Message.conforms, Bool.and_eq_true] at hconf
      have hfields := depth_fieldTrees t fields hcost hconf.1
      have hdepth : Tree.fieldsDepth ((t.shown fields).map fun f =>
          (f.name, ((fieldTrees s t fields).lookup f.number).getD (f.defaultTree s))) ≤
          k * fieldsLevels fields + 2 := by
        rw [Tree.fieldsDepth_le_iff]
        intro entry hmem
        obtain ⟨f, -, rfl⟩ := List.mem_map.mp hmem
        cases htree : (fieldTrees s t fields).lookup f.number with
        | none => exact Nat.le_add_left_of_le (f.depth_defaultTree s)
        | some tree => exact hfields f.number tree htree
      rw [Message.toTree, MessageType.assemble_eq, Tree.depth, Message.levels, Nat.mul_succ]
      omega

theorem itemsDepth_listTrees : ∀ (type : FieldType) (vs : List Value),
    s.Costs (type.target s) k → (type.isMessage = true → 2 ≤ k) →
    valuesConform s type vs = true →
    Tree.itemsDepth (listTrees s type vs) ≤ k * valuesLevels vs + 1
  | _, [], _, _, _ => Nat.zero_le _
  | type, v :: rest, hcost, hmany, hconf => by
      simp only [valuesConform, Bool.and_eq_true] at hconf
      have hv := Value.depth_toTree type v hcost hmany hconf.1
      have hrest := itemsDepth_listTrees type rest hcost hmany hconf.2
      have hleft := Nat.mul_le_mul_left k (Nat.le_max_left v.levels (valuesLevels rest))
      have hright := Nat.mul_le_mul_left k (Nat.le_max_right v.levels (valuesLevels rest))
      simp only [listTrees, Tree.itemsDepth, valuesLevels]
      omega

theorem depth_entryTrees (key : ScalarKind) : ∀ (type : FieldType)
    (entries : List (MapKey × Value)), s.Costs (type.target s) k →
    (type.isMessage = true → 2 ≤ k) → entriesConform s key type entries = true →
    ∀ entry ∈ entryTrees s type entries, entry.2.depth ≤ k * entriesLevels entries + 1
  | _, [], _, _, _, _, hmem => absurd hmem (List.not_mem_nil)
  | type, (_, v) :: rest, hcost, hmany, hconf, entry, hmem => by
      simp only [entriesConform, Bool.and_eq_true] at hconf
      have hleft := Nat.mul_le_mul_left k (Nat.le_max_left v.levels (entriesLevels rest))
      have hright := Nat.mul_le_mul_left k (Nat.le_max_right v.levels (entriesLevels rest))
      rcases List.mem_cons.mp hmem with rfl | hmem
      · have hv := Value.depth_toTree type v hcost hmany hconf.1.2
        simp only [entriesLevels]
        omega
      · have hentry := depth_entryTrees key type rest hcost hmany hconf.2 entry hmem
        simp only [entriesLevels]
        omega

theorem depth_fieldTrees : ∀ (t : MessageType) (fields : List (Nat × FieldValue)),
    s.Costs t k → fieldsConform s t fields = true →
    ∀ n tree, (fieldTrees s t fields).lookup n = some tree →
    tree.depth ≤ k * fieldsLevels fields + 2
  | _, [], _, _, _, _, htree => absurd htree (by simp [fieldTrees])
  | t, (n', v) :: rest, hcost, hconf, n, tree, htree => by
      simp only [fieldsConform, Bool.and_eq_true] at hconf
      have hleft := Nat.mul_le_mul_left k (Nat.le_max_left v.levels (fieldsLevels rest))
      have hright := Nat.mul_le_mul_left k (Nat.le_max_right v.levels (fieldsLevels rest))
      rw [fieldTrees, lookup_cons_ite] at htree
      split at htree
      · obtain ⟨f, hfield, hvalue⟩ := (Option.any_eq_true ..).mp hconf.1
        obtain rfl := Option.some.inj htree
        have hf := List.mem_of_find?_eq_some hfield
        have hv := FieldValue.depth_toTree f.shape v (hcost.target hf) (hcost.two_le hf) hvalue
        simp only [hfield, Option.map_some, Option.getD_some, fieldsLevels]
        omega
      · have htree := depth_fieldTrees t rest hcost hconf.2 n tree htree
        simp only [fieldsLevels]
        omega
end

end Depth

end GrpcContract
