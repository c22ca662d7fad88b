import GrpcContract.Codec
import GrpcContract.Proofs.LeafTexts
import GrpcContract.Proofs.MessageJson
import GrpcContract.Proofs.Results
import GrpcContract.Proofs.Tidy

/-!
# How deeply a text nests

A text that nests too deeply has a value in which what lies too deep is unreadable. A reader of
messages looks at every part of a value that it does not skip, so a strict one refuses such a text.
-/

namespace GrpcContract

open Json

/-! ### What readers look at -/

theorem Json.isReadable_of_isLeaf {j : Json} (hleaf : j.isLeaf = true) : j.isReadable = true := by
  cases j with
  | array items | object members | unreadable => cases hleaf
  | _ => rfl

theorem Json.allReadable_iff {items : List Json} :
    allReadable items = true ↔ ∀ j ∈ items, j.isReadable = true := by
  induction items with
  | nil => simp [allReadable]
  | cons j items ih => simp [allReadable, ih]

theorem Json.membersReadable_iff {members : List (String × Json)} :
    membersReadable members = true ↔ ∀ member ∈ members, member.2.isReadable = true := by
  induction members with
  | nil => simp [membersReadable]
  | cons member members ih => simp [membersReadable, ih]

section Readable

variable {o : CodecOptions} {s : Schema}

mutual
theorem isReadable_of_valueOfJson : ∀ (type : FieldType) (j : Json) {v? : Option Value},
    (o.ignoreUnknown = true → tidyValue o s type j = true) →
    valueOfJson o s type j = .ok v? → j.isReadable = true
  | type, .object members, v?, hseen, hread => by
      cases type with
      | message name =>
          simp only [valueOfJson] at hread
          obtain ⟨m, hm, -⟩ := Except.ok_of_map hread
          exact membersReadable_of_membersOfJson _ _ members hseen hm
      | _ =>
          simp only [valueOfJson] at hread
          exact isReadable_of_isLeaf (isLeaf_of_leafOfJson hread)
  | _, .null, _, _, _ | _, .bool _, _, _, _ | _, .number _, _, _, _ | _, .string _, _, _, _ => rfl
  | type, .array items, v?, _, hread => by
      simp only [valueOfJson] at hread
      exact isReadable_of_isLeaf (isLeaf_of_leafOfJson hread)
  | type, .unreadable, v?, _, hread => by
      simp only [valueOfJson] at hread
      exact isReadable_of_isLeaf (isLeaf_of_leafOfJson hread)

theorem isReadable_of_fieldOfJson : ∀ (shape : Shape) (j : Json) {v? : Option FieldValue},
    (o.ignoreUnknown = true → tidyField o s shape j = true) →
    fieldOfJson o s shape j = .ok v? → j.isReadable = true
  | _, .null, _, _, _ | _, .bool _, _, _, _ | _, .number _, _, _, _ | _, .string _, _, _, _ => rfl
  | .single type presence default?, .object members, v?, hseen, hread => by
      cases type with
      | message name =>
          simp only [fieldOfJson] at hread
          obtain ⟨m, hm, -⟩ := Except.ok_of_map hread
          exact membersReadable_of_membersOfJson _ _ members hseen hm
      | _ =>
          simp only [fieldOfJson] at hread
          obtain ⟨v, hv, -⟩ := Except.ok_of_map hread
          exact isReadable_of_isLeaf (isLeaf_of_leafOfJson hv)
  | .map key value, .object members, v?, hseen, hread => by
      simp only [fieldOfJson] at hread
      obtain ⟨entries, hentries, -⟩ := Except.ok_of_map hread
      exact membersReadable_of_entriesOfJson _ _ _ members hseen hentries
  | .repeated type packed, .array items, v?, hseen, hread => by
      simp only [fieldOfJson] at hread
      obtain ⟨vs, hvs, -⟩ := Except.ok_of_map hread
      exact allReadable_of_itemsOfJson _ items hseen hvs
  | .single type presence default?, .array items, v?, _, hread => by
      simp only [fieldOfJson] at hread
      obtain ⟨v, hv, -⟩ := Except.ok_of_map hread
      exact isReadable_of_isLeaf (isLeaf_of_leafOfJson hv)
  | .single type presence default?, .unreadable, v?, _, hread => by
      simp only [fieldOfJson] at hread
      obtain ⟨v, hv, -⟩ := Except.ok_of_map hread
      exact isReadable_of_isLeaf (isLeaf_of_leafOfJson hv)

theorem membersReadable_of_membersOfJson : ∀ (t : MessageType) (m : Message)
    (members : List (String × Json)) {m' : Message},
    (o.ignoreUnknown = true → tidyMembers o s t members = true) →
    membersOfJson o s t m members = .ok m' → membersReadable members = true
  | _, _, [], _, _, _ => rfl
  | t, m, (key, j) :: rest, m', hseen, hread => by
      simp only [tidyMembers, Bool.and_eq_true] at hseen
      unfold membersOfJson at hread
      split at hread
      · rename_i hunknown
        cases hskip : o.ignoreUnknown with
        | false => simp [hskip] at hread
        | true => simp [hunknown, hskip] at hseen
      · rename_i f hfield
        obtain ⟨v?, hv, hgiven⟩ := Except.ok_of_bind hread
        obtain ⟨next, hnext, hrest⟩ := Except.ok_of_bind hgiven
        simp only [hfield, Bool.and_eq_true] at hseen
        rw [membersReadable, isReadable_of_fieldOfJson f.shape j (fun h => (hseen h).1.1) hv,
          membersReadable_of_membersOfJson t next rest (fun h => (hseen h).2) hrest]
        rfl

theorem allReadable_of_itemsOfJson : ∀ (type : FieldType) (items : List Json) {vs : List Value},
    (o.ignoreUnknown = true → tidyItems o s type items = true) →
    itemsOfJson o s type items = .ok vs → allReadable items = true
  | _, [], _, _, _ => rfl
  | type, j :: rest, vs, hseen, hread => by
      simp only [tidyItems, Bool.and_eq_true] at hseen
      unfold itemsOfJson at hread
      obtain ⟨v?, hv, hjoined⟩ := Except.ok_of_bind hread
      obtain ⟨ws, hws, -⟩ := Except.ok_of_bind hjoined
      rw [allReadable, isReadable_of_valueOfJson type j (fun h => (hseen h).1) hv,
        allReadable_of_itemsOfJson type rest (fun h => (hseen h).2) hws]
      rfl

theorem membersReadable_of_entriesOfJson : ∀ (key : ScalarKind) (value : FieldType)
    (entries : List (MapKey × Value)) (members : List (String × Json))
    {entries' : List (MapKey × Value)},
    (o.ignoreUnknown = true → tidyEntries o s key value members = true) →
    entriesOfJson o s key value entries members = .ok entries' → membersReadable members = true
  | _, _, _, [], _, _, _ => rfl
  | key, value, entries, (text, j) :: rest, entries', hseen, hread => by
      simp only [tidyEntries, Bool.and_eq_true] at hseen
      unfold entriesOfJson at hread
      obtain ⟨k, -, hkeyed⟩ := Except.ok_of_bind hread
      obtain ⟨v?, hv, hrest⟩ := Except.ok_of_bind hkeyed
      rw [membersReadable, isReadable_of_valueOfJson value j (fun h => (hseen h).1.2) hv,
        membersReadable_of_entriesOfJson key value _ rest (fun h => (hseen h).2) hrest]
      rfl
end

/-- A message is read only from a value all of which is readable, if no part of it is skipped. -/
theorem Message.isReadable_of_ofJson {t : MessageType} {j : Json} {m : Message}
    (hseen : o.ignoreUnknown = true → j.isTidy o s t = true)
    (hread : Message.ofJson o s t j = .ok m) : j.isReadable = true := by
  cases j with
  | object members => exact membersReadable_of_membersOfJson t .empty members hseen hread
  | _ => cases hread

end Readable

/-! ### What is readable of a text -/

namespace Tree

mutual
theorem isReadable_limitDepth : ∀ (t : Tree) (n : Nat),
    (t.written.limitDepth n).isReadable = decide (t.depth ≤ n)
  | leaf l, n => by
      rw [written, Leaf.limitDepth_written n l, l.isReadable_written]
      simp [depth]
  | message fields, 0 | list items, 0 | map entries, 0 => by
      simp [written, limitDepth, isReadable, depth]
  | message fields, n + 1 => by
      simp only [written, limitDepth, isReadable, depth, Nat.add_le_add_iff_right]
      exact membersReadable_limitFields fields n
  | list items, n + 1 => by
      simp only [written, limitDepth, isReadable, depth, Nat.add_le_add_iff_right]
      exact allReadable_limitItems items n
  | map entries, n + 1 => by
      simp only [written, limitDepth, isReadable, depth, Nat.add_le_add_iff_right]
      exact membersReadable_limitEntries entries n

theorem membersReadable_limitFields : ∀ (fields : List (String × Tree)) (n : Nat),
    membersReadable (limitMembers n (fieldsWritten fields)) = decide (fieldsDepth fields ≤ n)
  | [], n => by simp [fieldsWritten, limitMembers, membersReadable, fieldsDepth]
  | (_, t) :: rest, n => by
      simp only [fieldsWritten, limitMembers, membersReadable, fieldsDepth, Nat.max_le,
        isReadable_limitDepth t n, membersReadable_limitFields rest n, Bool.decide_and]

theorem allReadable_limitItems : ∀ (items : List Tree) (n : Nat),
    allReadable (limitItems n (itemsWritten items)) = decide (itemsDepth items ≤ n)
  | [], n => by simp [itemsWritten, limitItems, allReadable, itemsDepth]
  | t :: rest, n => by
      simp only [itemsWritten, limitItems, allReadable, itemsDepth, Nat.max_le,
        isReadable_limitDepth t n, allReadable_limitItems rest n, Bool.decide_and]

theorem membersReadable_limitEntries : ∀ (entries : List (Leaf × Tree)) (n : Nat),
    membersReadable (limitMembers n (entriesWritten entries)) =
      decide (entriesDepth entries ≤ n)
  | [], n => by simp [entriesWritten, limitMembers, membersReadable, entriesDepth]
  | (_, t) :: rest, n => by
      simp only [entriesWritten, limitMembers, membersReadable, entriesDepth, Nat.max_le,
        isReadable_limitDepth t n, membersReadable_limitEntries rest n, Bool.decide_and]
end

/-- The whole of a text is read exactly where it does not nest too deeply. -/
theorem isSome_parseSorted?_render {t : Tree} :
    (Json.parseSorted? t.render).isSome = true ↔ t.depth ≤ maxDepth := by
  rw [Json.parseSorted?, parse?_render_limited]
  simp [Option.filter, isReadable_limitDepth t maxDepth]

theorem parseSorted?_render {t : Tree} (hdepth : t.depth ≤ maxDepth) :
    Json.parseSorted? t.render = some t.written.sorted := by
  have hreadable : t.written.isReadable = true := by
    rw [← limitDepth_written t maxDepth hdepth, isReadable_limitDepth t maxDepth]
    simpa using hdepth
  rw [Json.parseSorted?, parse?_render hdepth, Option.filter_some, if_pos hreadable,
    Option.map_some]

end Tree

/-- A codec refuses a text that nests too deeply, unless it skips a part of it. -/
theorem Codec.depth_le_of_decode_seen {c : Codec} {t : MessageType} {tree : Tree}
    (hseen : c.options.ignoreUnknown = true → tree.written.isTidy c.options c.schema t = true)
    {m : Message} (hread : c.decode t tree.render = .ok m) : tree.depth ≤ maxDepth := by
  have hlimited :
      Message.ofJson c.options c.schema t (tree.written.limitDepth maxDepth) = .ok m := by
    rw [decode, Tree.parse?_render_limited] at hread
    exact Except.ok_of_mapError hread
  have hreadable := Message.isReadable_of_ofJson
    (fun hskip => Json.isTidy_limitDepth (hseen hskip) maxDepth) hlimited
  simpa [Tree.isReadable_limitDepth tree maxDepth] using hreadable

/-- A strict codec refuses a text that nests too deeply. -/
theorem Codec.depth_le_of_decode {c : Codec} {t : MessageType} {tree : Tree}
    (hstrict : c.options.ignoreUnknown = false) {m : Message}
    (hread : c.decode t tree.render = .ok m) : tree.depth ≤ maxDepth :=
  depth_le_of_decode_seen (by simp [hstrict]) hread

end GrpcContract
