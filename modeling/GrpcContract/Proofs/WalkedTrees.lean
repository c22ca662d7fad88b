import GrpcContract.Codec
import GrpcContract.Proofs.EchoedBodies
import GrpcContract.Proofs.Nesting
import GrpcContract.Proofs.Results
import GrpcContract.Proofs.SpelledTrees
import GrpcContract.Proofs.TextNesting

/-!
# Trees by a walk over the declared fields

A message is written by a walk over the declared fields of its type, which follows the schema into
messages that are not set. Of a recursive type there is no end of these, so the walk keeps in mind
whether it is in a default instance already, and goes no further there. It ends one level below the
deepest message that is set, and its text nests accordingly.
-/

namespace GrpcContract

/-! ### The walk -/

/-- One value, its messages walked by `nested`. -/
def Value.walk? (nested : MessageType → Message → Option Tree) (s : Schema) (type : FieldType) :
    Value → Option Tree
  | .scalar x => some (.leaf (type.leaf x))
  | .message m => nested (type.target s) m

def FieldValue.walk? (nested : MessageType → Message → Option Tree) (s : Schema)
    (type : FieldType) : FieldValue → Option Tree
  | .single v => v.walk? nested s type
  | .list vs => (vs.mapM (Value.walk? nested s type)).map .list
  | .map entries =>
    (entries.mapM fun e : MapKey × Value =>
      (e.2.walk? nested s type).map (Leaf.scalar e.1.toScalar, ·)).map fun trees =>
        .map (trees.mergeSort fun a b => a.1.keyLe b.1)

/-- A declared field. A message that is not set is walked as a default instance, and one in a
default instance is left without fields. -/
def Message.walkField? (nested : Bool → MessageType → Message → Option Tree) (s : Schema)
    (inDefault : Bool) (m : Message) (f : Field) : Option Tree :=
  match m.has f, m.get f with
  | false, .single (.message k) =>
    if inDefault then some (.message []) else nested true (f.shape.valueType.target s) k
  | _, v => v.walk? (nested false) s f.shape.valueType

/-- The walk, with at most `n` messages open at once. -/
def Message.walk? (s : Schema) : Nat → Bool → MessageType → Message → Option Tree
  | 0, _, _, _ => none
  | n + 1, inDefault, t, m =>
    ((t.shown m.fields).mapM fun f =>
      (m.walkField? (walk? s n) s inDefault f).map (f.name, ·)).map .message

/-! ### Where nothing is set -/

theorem Field.walk?_default (nested : MessageType → Message → Option Tree) (s : Schema) {f : Field}
    (hplain : ∀ m, f.default ≠ .single (.message m)) :
    f.default.walk? nested s f.shape.valueType = some f.bareTree := by
  unfold bareTree
  cases hdefault : f.default with
  | single v =>
      cases v with
      | scalar x => rfl
      | message k => exact absurd hdefault (hplain k)
  | list vs =>
      obtain rfl := list_default hdefault
      rfl
  | map entries =>
      obtain rfl := map_default hdefault
      simp [FieldValue.walk?]

/-- A field that is not set is walked as in a default instance, or as one. -/
theorem Message.walkField?_of_unset {walk : Bool → MessageType → Message → Option Tree} (s : Schema)
    {inDefault : Bool}
    (hdefault : inDefault = false → ∀ t, walk true t .empty = some t.defaultTree)
    {m : Message} {f : Field} (hunset : m.get? f.number = none) :
    m.walkField? walk s inDefault f = some (if inDefault then f.bareTree else f.defaultTree s) := by
  have hget : m.get f = f.default := by
    rw [get, hunset, Option.getD_none]
  have hhas : m.has f = false := by
    rw [has, hunset, Option.any_none]
  unfold walkField?
  rw [hget, hhas]
  by_cases hplain : ∀ m, f.default ≠ .single (.message m)
  · rw [Field.defaultTree_eq_bareTree hplain, ite_self, ← f.walk?_default (walk false) s hplain]
    split
    · rename_i hmessage
      exact absurd hmessage (hplain _)
    · rfl
  · push Not at hplain
    obtain ⟨k, hmessage⟩ := hplain
    obtain rfl := Field.message_default hmessage
    rw [Field.bareTree, Field.defaultTree, hmessage]
    cases inDefault with
    | true => rfl
    | false => exact hdefault rfl _

/-- The default instance of a type is walked without a look at any other. -/
theorem Message.walk?_empty (s : Schema) (n : Nat) (t : MessageType) :
    Message.empty.walk? s (n + 1) true t = some t.defaultTree := by
  have hshown : t.shown Message.empty.fields = t.ordered.filter fun f => f.oneof?.isNone := by
    apply List.filter_congr
    intro f _
    rw [empty, fields, List.lookup_nil, Option.any_none, Bool.or_false]
  have hfield : ∀ f ∈ t.shown Message.empty.fields,
      (Message.empty.walkField? (walk? s n) s true f).map (f.name, ·) = some (f.name, f.bareTree) := by
    intro f _
    rw [walkField?_of_unset s (by simp) rfl]
    rfl
  rw [walk?, mapM_some hfield, Option.map_some, hshown, MessageType.defaultTree_eq]

/-! ### Messages with something set -/

/-- Whether a walk with `n` messages open at once tells the tree of typed messages of so many
levels. -/
def Schema.WalksTo (s : Schema) (walk : Bool → MessageType → Message → Option Tree) (n : Nat) :
    Prop :=
  ∀ t m, s.Sound t → m.conforms s t = true → m.levels ≤ n → walk false t m = some (m.toTree s t)

section Walking

variable {s : Schema} {walk : Bool → MessageType → Message → Option Tree} {n : Nat}
  (hwalk : s.WalksTo walk n)
include hwalk

theorem Value.walk?_eq {type : FieldType} {v : Value} (hsound : s.Sound (type.target s))
    (hconf : v.conforms s type = true) (hlevels : v.levels ≤ n) :
    v.walk? (walk false) s type = some (v.toTree s type) := by
  cases v with
  | scalar x => rfl
  | message m =>
      cases type with
      | message name => exact hwalk (s.messageType name) m hsound hconf hlevels
      | _ => exact absurd hconf (by simp [conforms])

theorem FieldValue.walk?_eq {shape : Shape} {v : FieldValue}
    (hsound : s.Sound (shape.valueType.target s)) (hconf : v.conforms s shape = true)
    (hlevels : v.levels ≤ n) :
    v.walk? (walk false) s shape.valueType = some (v.toTree s shape.valueType) := by
  obtain ⟨type, _, _, w, rfl, rfl, hvalue⟩ | ⟨type, _, vs, rfl, rfl, hvalues⟩ |
    ⟨key, type, entries, rfl, rfl, hvalues, -⟩ := conforms_cases hconf
  · exact Value.walk?_eq hwalk hsound hvalue hlevels
  · have hitem : ∀ v ∈ vs, v.walk? (walk false) s type = some (v.toTree s type) := by
      intro v hv
      exact Value.walk?_eq hwalk hsound (hvalues v hv) (valuesLevels_le_iff.mp hlevels v hv)
    simp only [walk?, toTree, Shape.valueType]
    rw [mapM_some hitem, Option.map_some, listTrees_eq_map]
  · have hentry : ∀ e ∈ entries,
        (e.2.walk? (walk false) s type).map (Leaf.scalar e.1.toScalar, ·) =
          some (Leaf.scalar e.1.toScalar, e.2.toTree s type) := by
      intro e he
      have hlevel := entriesLevels_le_iff.mp hlevels e he
      exact congrArg (Option.map _) (Value.walk?_eq hwalk hsound (hvalues e he) hlevel)
    simp only [walk?, toTree, Shape.valueType]
    rw [mapM_some hentry, Option.map_some, entryTrees_eq_map]

theorem Message.walkField?_of_set {m : Message} {f : Field} {v : FieldValue}
    (hsound : s.Sound (f.shape.valueType.target s)) (hstored : m.get? f.number = some v)
    (hconf : v.conforms s f.shape = true) (hlevels : v.levels ≤ n) :
    m.walkField? walk s false f = some (v.toTree s f.shape.valueType) := by
  have hget : m.get f = v := by
    rw [get, hstored, Option.getD_some]
  have hhas : m.has f = f.holds v := by
    rw [has, hstored, Option.any_some]
  rw [walkField?, hget, hhas]
  split
  · rename_i k hholds
    exact absurd hholds (by simp [Field.holds])
  · exact FieldValue.walk?_eq hwalk hsound hconf hlevels

end Walking

/-- A walk that may open one message more than there are levels in the message tells its tree. -/
theorem Message.walk?_eq_toTree (s : Schema) (n : Nat) : s.WalksTo (Message.walk? s (n + 1)) n := by
  induction n with
  | zero =>
      intro t m hsound hconf hlevels
      cases m
      exact absurd hlevels (Nat.not_succ_le_zero _)
  | succ n ih =>
      intro t m hsound hconf hlevels
      have hwf := hsound.wellFormed
      have hfield : ∀ f ∈ t.shown m.fields,
          (m.walkField? (walk? s (n + 1)) s false f).map (f.name, ·) =
            some (f.name, m.fieldTree s f) := by
        intro f hf
        have hft := (MessageType.mem_shown.mp hf).1
        cases hstored : m.get? f.number with
        | none =>
            rw [walkField?_of_unset s (fun _ => walk?_empty s n) hstored, fieldTree, hstored]
            rfl
        | some v =>
            have hvalue := conforms_of_get? hwf hconf hft hstored
            rw [walkField?_of_set ih (hsound.target hft) hstored hvalue
              (levels_of_get? hlevels hstored), fieldTree, hstored]
            rfl
      rw [walk?, mapM_some hfield, Option.map_some, m.toTree_eq hwf]

/-! ### Nesting of what is written -/

namespace Codec

variable {c : Codec} {t : MessageType}

theorem depth_encode_le {m : Message} (hconf : m.conforms c.schema t = true) :
    (c.encode t m).depth ≤ 2 * m.levels + 1 := by
  have hdepth := m.depth_toTree c.schema t (.inl (Nat.le_refl 2)) hconf
  rw [encode]
  omega

theorem depth_encodeMany_le {ms : List Message} {n : Nat}
    (hms : ∀ m ∈ ms, m.conforms c.schema t = true ∧ m.levels ≤ n) :
    (c.encodeMany t ms).depth ≤ 2 * n + 2 := by
  apply Nat.succ_le_succ
  rw [Tree.itemsDepth_le_iff, List.forall_mem_map]
  intro m hm
  have hdepth := depth_encode_le (hms m hm).1
  have hlevels := (hms m hm).2
  omega

/-- A tree no deeper than the parser goes nests as little in its text, which is read in full. -/
theorem within_limit {tree : Tree} (hdepth : tree.depth ≤ Json.maxDepth) :
    nesting tree.render ≤ Json.maxDepth ∧ Json.parse? tree.render = some tree.written := by
  rw [tree.nesting_render]
  exact ⟨hdepth, tree.parse?_render hdepth⟩

/-- A message is written by a walk that ends, whatever its type refers to. In the text it nests at
most twice as deeply as messages are set, and once more; so with 63 levels of messages, or 62 in a
sequence, the text is within the limit of the parser. -/
theorem encode_ends_and_nests (c : Codec) (t : MessageType) (hsound : c.schema.Sound t) :
    (∀ m, m.conforms c.schema t = true →
      (∀ n, m.levels < n → m.walk? c.schema n false t = some (c.encode t m)) ∧
      nesting (c.encode t m).render ≤ 2 * m.levels + 1 ∧
      (m.levels ≤ 63 → nesting (c.encode t m).render ≤ Json.maxDepth ∧
        Json.parse? (c.encode t m).render = some (c.encode t m).written)) ∧
    ∀ ms, (∀ m ∈ ms, m.conforms c.schema t = true ∧ m.levels ≤ 62) →
      nesting (c.encodeMany t ms).render ≤ Json.maxDepth ∧
        Json.parse? (c.encodeMany t ms).render = some (c.encodeMany t ms).written := by
  have hmax : Json.maxDepth = 127 := rfl
  constructor
  · intro m hconf
    have hdepth := depth_encode_le hconf
    refine ⟨?_, ?_, ?_⟩
    · intro n hn
      obtain ⟨n, rfl⟩ : ∃ k, n = k + 1 := ⟨n - 1, by omega⟩
      exact m.walk?_eq_toTree c.schema n t hsound hconf (Nat.le_of_lt_succ hn)
    · rw [Tree.nesting_render]
      exact hdepth
    · intro hlevels
      apply within_limit
      omega
  · intro ms hms
    have hdepth := depth_encodeMany_le hms
    apply within_limit
    omega

end Codec

namespace Sample

theorem conforms_rows {n : Nat} (hn : n ≤ 64) : (rows n).conforms pantry.schema root = true :=
  Message.conforms_of_read? sound_root (read?_rowBytes hn)

/-- With as many levels as the parser can take. -/
theorem nesting_encode_rows :
    pantry.schema.Sound root ∧ (rows 62).conforms pantry.schema root = true ∧
      (rows 62).levels = 63 ∧ (rows 61).levels = 62 ∧
      (rows 62).walk? pantry.schema 64 false root = some (pantry.encode root (rows 62)) ∧
      nesting (pantry.encode root (rows 62)).render ≤ Json.maxDepth ∧
      nesting (pantry.encodeMany root [rows 61, rows 61]).render ≤ Json.maxDepth := by
  obtain ⟨hone, hmany⟩ := Codec.encode_ends_and_nests pantry root sound_root
  have hconf := conforms_rows (by decide : 62 ≤ 64)
  have hlevels := levels_rows 62
  obtain ⟨hwalk, -, hwithin⟩ := hone (rows 62) hconf
  refine ⟨sound_root, hconf, hlevels, levels_rows 61, hwalk 64 (by omega),
    (hwithin (by omega)).1, (hmany [rows 61, rows 61] ?_).1⟩
  intro m hm
  have heq : m = rows 61 := by simpa using hm
  rw [heq]
  exact ⟨conforms_rows (by decide), Nat.le_of_eq (levels_rows 61)⟩

end Sample

end GrpcContract
