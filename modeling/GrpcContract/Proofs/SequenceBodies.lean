import GrpcContract.Proofs.SingleBodies
import GrpcContract.Proofs.TidyTrees

/-!
# Sequences of messages as bodies

The messages of a sequence are read each on its own. An element that tells what the client sends
from what the server sends is read as the former, whatever the type it is an element of.
-/

namespace GrpcContract

open Json

/-! ### Members by their keys -/

theorem Json.member?_eq_lookup {members : List (String × Json)}
    (hne : members.Pairwise fun a b => a.1 ≠ b.1) (key : String) :
    Json.member? members key = members.lookup key := by
  have hfind (members : List (String × Json)) :
      (members.find? (·.1 == key)).map (·.2) = members.lookup key := by
    induction members with
    | nil => rfl
    | cons member members ih =>
        obtain ⟨key', value⟩ := member
        by_cases hkey : key' = key
        · simp [hkey]
        · simp [lookup_cons_ite, hkey, Ne.symm hkey, ih]
  rw [Json.member?, hfind]
  exact lookup_eq_of_perm (List.reverse_perm members)
    ((List.pairwise_reverse).mpr (hne.imp fun h => h.symm)) key

/-! ### What the client sends -/

/-- The client side of a tree that tells it from a server side, and is no sequence. -/
def Tree.clientValue? : Tree → Option Tree
  | .message fields =>
    if fields.length = 3 ∧ (fields.lookup "serverValue").isSome ∧
        (fields.lookup "singleValue").bind leaf? = some (.scalar (.bool true)) then
      fields.lookup "clientValue"
    else none
  | _ => none

/-- What is read of a tree that is an element of a sequence. -/
def Tree.element (t : Tree) : Tree :=
  t.clientValue?.getD t

theorem Leaf.written_eq_true_iff {l : Leaf} :
    l.written = .bool true ↔ l = .scalar (.bool true) := by
  by_cases hfinite : l.isFiniteFloat = true
  · obtain ⟨literal, hwritten, -⟩ := exists_written_eq_ofLiteral hfinite
    rw [hwritten, ofLiteral]
    constructor
    · intro htrue
      split at htrue <;> cases htrue
    · rintro rfl
      cases hfinite
  · rw [written_eq_toJson (by simpa using hfinite)]
    cases l with
    | symbol number name => simp [toJson]
    | scalar x =>
        cases x with
        | float x | double x =>
            simp only [toJson]
            split <;> simp
        | _ => simp [toJson]

theorem Tree.sorted_written_eq_true_iff {t : Tree} :
    t.written.sorted = .bool true ↔ t.leaf? = some (.scalar (.bool true)) := by
  cases t with
  | leaf l =>
      rw [written, l.sorted_written, Leaf.written_eq_true_iff, leaf?, Option.some.injEq]
  | _ => simp [written, sorted, leaf?]

/-- Ordered by key the members of a tree are those of its fields: as many, and found under the same
keys. -/
theorem Tree.exists_sorted_written {fields : List (String × Tree)}
    (hnames : fields.Pairwise fun a b => a.1 ≠ b.1) :
    ∃ members, (Tree.message fields).written.sorted = .object members ∧
      members.length = fields.length ∧
      ∀ key, Json.member? members key = (fields.lookup key).map fun t => t.written.sorted := by
  have hsorted : sortedMembers (fieldsWritten fields) =
      fields.map fun field => (field.1, field.2.written.sorted) := by
    rw [fieldsWritten_eq_map, sortedMembers_eq_map, List.map_map]
    rfl
  have hkeys : (fields.map fun field => (field.1, field.2.written.sorted)).Pairwise
      fun a b => a.1 ≠ b.1 :=
    List.pairwise_map.mpr hnames
  have hperm := perm_sortMembers hkeys
  have hdifferent := (hperm.pairwise_iff fun h => h.symm).mpr hkeys
  refine ⟨_, by rw [written, sorted, hsorted], by rw [hperm.length_eq, List.length_map], ?_⟩
  intro key
  rw [Json.member?_eq_lookup hdifferent, lookup_eq_of_perm hperm hdifferent]
  exact lookup_map_snd (fun t => t.written.sorted) fields key

/-- The client side of a value is that of the tree it is written for. -/
theorem Codec.clientSide_written {fields : List (String × Tree)}
    (hnames : fields.Pairwise fun a b => a.1 ≠ b.1) :
    clientSide (Tree.message fields).written.sorted =
      (Tree.message fields).element.written.sorted := by
  obtain ⟨members, hvalue, hlength, hmember⟩ := Tree.exists_sorted_written hnames
  rw [hvalue]
  unfold Tree.element Tree.clientValue?
  by_cases htold : fields.length = 3 ∧ (fields.lookup "serverValue").isSome ∧
      (fields.lookup "singleValue").bind Tree.leaf? = some (.scalar (.bool true))
  · obtain ⟨hthree, hserver, hsingle⟩ := htold
    obtain ⟨single, hlookup, hleaf⟩ := Option.bind_eq_some_iff.mp hsingle
    have htrue := Tree.sorted_written_eq_true_iff.mpr hleaf
    simp only [clientSide, hmember, hlength, hthree, hserver, hlookup, hleaf, htrue,
      Option.map_some, Option.isSome_map, Option.bind_some, and_self, ↓reduceIte, beq_self_eq_true,
      Bool.and_self]
    cases fields.lookup "clientValue" with
    | none => exact hvalue.symm
    | some t => rfl
  · simp only [htold, ↓reduceIte, Option.getD_none, hvalue, clientSide]
    apply if_neg
    intro hcondition
    simp only [Bool.and_eq_true, beq_iff_eq, hlength, hmember, Option.isSome_map] at hcondition
    obtain ⟨⟨hthree, hserver⟩, hsingle⟩ := hcondition
    split at hsingle
    · rename_i htrue
      obtain ⟨single, hlookup, hsorted⟩ := Option.map_eq_some_iff.mp htrue
      have hleaf := Tree.sorted_written_eq_true_iff.mp hsorted
      exact htold ⟨hthree, hserver, by rw [hlookup, Option.bind_some, hleaf]⟩
    · cases hsingle

/-! ### Elements of a sequence -/

namespace Tree

theorem exists_mem_of_clientValue? {t client : Tree} (hclient : t.clientValue? = some client) :
    ∃ fields, t = .message fields ∧ ("clientValue", client) ∈ fields := by
  cases t with
  | message fields =>
      rw [clientValue?] at hclient
      split at hclient
      · obtain ⟨before, after, rfl, -⟩ := List.lookup_eq_some_iff.mp hclient
        exact ⟨_, rfl, by simp⟩
      · cases hclient
  | _ => cases hclient

/-- What is read of an element nests no deeper than the element. -/
theorem depth_element (t : Tree) : t.element.depth ≤ t.depth := by
  cases hclient : t.clientValue? with
  | none => rw [element, hclient, Option.getD_none]
  | some client =>
      obtain ⟨fields, rfl, hmem⟩ := exists_mem_of_clientValue? hclient
      rw [element, hclient, Option.getD_some, depth]
      exact Nat.le_succ_of_le (fieldsDepth_le_iff.mp (Nat.le_refl _) _ hmem)

theorem isReadable_element {t : Tree} (hreadable : t.written.isReadable = true) :
    t.element.written.isReadable = true := by
  cases hclient : t.clientValue? with
  | none =>
      rw [element, hclient, Option.getD_none]
      exact hreadable
  | some client =>
      obtain ⟨fields, rfl, hmem⟩ := exists_mem_of_clientValue? hclient
      rw [element, hclient, Option.getD_some]
      rw [written, fieldsWritten_eq_map, isReadable, membersReadable_iff] at hreadable
      exact hreadable _ (List.mem_map_of_mem hmem)

end Tree

section Codec

variable {c : Codec} {t : MessageType}

theorem Codec.decodeSorted_render {tree : Tree} (hdepth : tree.depth ≤ maxDepth)
    (hreadable : tree.written.isReadable = true) :
    c.decodeSorted t tree.render = c.decodeJson t tree.written.sorted := by
  rw [decodeSorted, parseSorted?, Tree.parse?_render hdepth, Option.filter_some, if_pos hreadable,
    Option.map_some]

theorem Message.exists_toTree_eq {s : Schema} (hwf : t.WellFormed) (m : Message) :
    ∃ fields, m.toTree s t = .message fields ∧ fields.Pairwise fun a b => a.1 ≠ b.1 := by
  obtain ⟨stored, unknown⟩ := m
  rw [Message.toTree, MessageType.assemble_eq]
  refine ⟨_, rfl, List.pairwise_map.mpr ?_⟩
  exact (MessageType.pairwise_ordered_name hwf).sublist (List.filter_sublist ..)

/-- A sequence of trees that can be read is read element by element. -/
theorem Codec.decodeMany_render_list {trees : List Tree}
    (hdepth : ∀ tree ∈ trees, tree.depth + 1 ≤ maxDepth)
    (hreadable : ∀ tree ∈ trees, tree.written.isReadable = true)
    (hnames : ∀ tree ∈ trees, ∃ fields, tree = .message fields ∧
      fields.Pairwise fun a b => a.1 ≠ b.1) :
    c.decodeMany t (Tree.list trees).render =
      trees.mapM fun tree => c.decodeSorted t tree.element.render := by
  have hparse : Json.parse? (Tree.list trees).render = some (.array (trees.map Tree.written)) := by
    have hmax : maxDepth = 126 + 1 := rfl
    rw [Tree.parse?_render, Tree.written, Tree.itemsWritten_eq_map]
    rw [hmax] at hdepth ⊢
    exact Nat.succ_le_succ (Tree.itemsDepth_le_iff.mpr fun tree htree =>
      Nat.le_of_succ_le_succ (hdepth tree htree))
  have hall : (Json.array (trees.map Tree.written)).isReadable = true := by
    rw [isReadable, allReadable_iff, List.forall_mem_map]
    exact hreadable
  rw [decodeMany, if_neg (trim_ne_nil_of_parse? hparse), parseSorted?, hparse, Option.filter_some,
    if_pos hall, Option.map_some, sorted, sortedItems_eq_map, List.map_map]
  simp only [List.mapM_map]
  apply mapM_congr
  intro tree htree
  obtain ⟨fields, rfl, hdifferent⟩ := hnames tree htree
  have hpart := Nat.le_trans (Tree.depth_element _) (Nat.le_of_succ_le (hdepth _ htree))
  rw [decodeSorted_render hpart (Tree.isReadable_element (hreadable _ htree)), Function.comp_apply,
    Function.comp_apply, clientSide_written hdifferent]

/-- The messages of a sequence are read from its text one by one, in their order. Each of them is
what is read of its own text, but where this tells a client side, it is what is read of that. -/
theorem Codec.decodeMany_render_encodeMany (c : Codec) (t : MessageType) (ms : List Message)
    (hsound : c.schema.Sound t) (huncrossed : c.schema.Uncrossed t)
    (hms : ∀ m ∈ ms, m.conforms c.schema t = true ∧ (c.encode t m).depth + 1 ≤ maxDepth ∧
      ∃ m', c.decode t (c.encode t m).render = .ok m') :
    c.decodeMany t (c.encodeMany t ms).render =
      ms.mapM (fun m => c.decodeSorted t (c.encode t m).element.render) ∧
    ((∀ m ∈ ms, (c.encode t m).clientValue? = none) →
      ∃ ms', c.decodeMany t (c.encodeMany t ms).render = .ok ms' ∧
        List.Forall₂ (fun m m' => ∃ d, c.decode t (c.encode t m).render = .ok d ∧ d.Alike m')
          ms ms') := by
  have htidy (m : Message) (hm : m ∈ ms) :
      (c.encode t m).written.isTidy c.options c.schema t = true :=
    isTidy_written c.options c.schema hsound huncrossed (hms m hm).1
  have hdecode (m : Message) (hm : m ∈ ms) :
      c.decode t (c.encode t m).render = c.decodeJson t (c.encode t m).written :=
    decode_of_parse? (Tree.parse?_render (Nat.le_of_succ_le (hms m hm).2.1))
  have hreadable (m : Message) (hm : m ∈ ms) : (c.encode t m).written.isReadable = true := by
    -- No part of a tidy value is skipped, so one that was read has no part that cannot be.
    obtain ⟨d, hd⟩ := (hms m hm).2.2
    rw [hdecode m hm] at hd
    exact Message.isReadable_of_ofJson (fun _ => htidy m hm) (Except.ok_of_mapError hd)
  have hmany : c.decodeMany t (c.encodeMany t ms).render =
      ms.mapM fun m => c.decodeSorted t (c.encode t m).element.render := by
    rw [encodeMany, decodeMany_render_list, List.mapM_map]
    · rfl
    · exact List.forall_mem_map.mpr fun m hm => (hms m hm).2.1
    · exact List.forall_mem_map.mpr hreadable
    · exact List.forall_mem_map.mpr fun m _ => m.exists_toTree_eq hsound.wellFormed
  refine ⟨hmany, fun hplain => ?_⟩
  rw [hmany]
  apply exists_mapM_forall₂
  intro m hm
  obtain ⟨d, hd⟩ := (hms m hm).2.2
  have hagrees := agrees_decodeJson_sorted hsound (htidy m hm)
  rw [← hdecode m hm] at hagrees
  obtain ⟨m', hm', halike⟩ := hagrees.exists_ok_right hd
  refine ⟨m', ?_, d, hd, halike⟩
  rw [Tree.element, hplain m hm, Option.getD_none,
    decodeSorted_render (Nat.le_of_succ_le (hms m hm).2.1) (hreadable m hm), hm']

/-- No message of a type tells a client side unless the type declares the three names. -/
theorem Message.clientValue?_toTree_of_forall_ne {s : Schema} {name : String}
    (hname : name ∈ ["clientValue", "serverValue", "singleValue"])
    (hnone : ∀ f ∈ t.fields, f.name ≠ name) (m : Message) :
    (m.toTree s t).clientValue? = none := by
  obtain ⟨stored, unknown⟩ := m
  have hshown (f : Field) (hf : f ∈ t.shown stored) : name ≠ f.name :=
    (hnone f (MessageType.mem_shown.mp hf).1).symm
  rw [Message.toTree, MessageType.assemble_eq, Tree.clientValue?]
  have hlookup : ((t.shown stored).map fun f => (f.name,
      ((fieldTrees s t stored).lookup f.number).getD (f.defaultTree s))).lookup name = none := by
    rw [List.lookup_eq_none_iff, List.forall_mem_map]
    intro f hf
    simpa using hshown f hf
  simp only [List.mem_cons, List.not_mem_nil, or_false] at hname
  rcases hname with rfl | rfl | rfl
  · simp [hlookup]
  · simp [hlookup]
  · simp [hlookup]

end Codec

namespace Sample

theorem decodeMany_render_encodeMany_chain :
    ∃ ms', links.decodeMany link (links.encodeMany link [chain, chain]).render = .ok ms' ∧
      List.Forall₂ (fun m m' => ∃ d, links.decode link (links.encode link m).render = .ok d ∧
        d.Alike m') [chain, chain] ms' := by
  have hdecode : links.decode link (links.encode link chain).render =
      .ok (chain.spelled links.schema link) :=
    Codec.decode_render sound_link uncrossed_link (by decide +kernel)
      (by rw [encode_chain]; decide +kernel) (by rw [encode_chain]; decide +kernel)
  have hdepth : (links.encode link chain).depth + 1 ≤ maxDepth := by
    rw [encode_chain]
    decide +kernel
  have hname : ∀ f ∈ link.fields, f.name ≠ "clientValue" := by decide +kernel
  refine (Codec.decodeMany_render_encodeMany links link [chain, chain] sound_link uncrossed_link
    ?_).2 ?_
  · simp only [List.mem_cons, List.not_mem_nil, or_false, or_self, forall_eq]
    exact ⟨by decide +kernel, hdepth, _, hdecode⟩
  · intro m _
    exact m.clientValue?_toTree_of_forall_ne (by simp) hname

/-- A type of which each message is shown with a client side and a server side. -/
def pairing : MessageType :=
  ⟨"Pairing", [
    .declare "clientValue" 1 (.one (.message "Pairing")),
    .declare "serverValue" 2 (.one (.message "Pairing")),
    .declare "singleValue" 3 (.one (.scalar .bool))]⟩

def pairings : Codec := ⟨⟨[pairing], []⟩, {}⟩

def paired : Message :=
  .mk [(1, .single (.message .empty)), (2, .single (.message .empty)),
    (3, .single (.scalar (.bool true)))] []

/-- A type that declares one field under the JSON name of another. -/
def crossing : MessageType :=
  ⟨"Crossing", [⟨"b", 1, "c", .one (.scalar .int32)⟩, ⟨"a", 2, "b", .one (.scalar .int32)⟩]⟩

def crossings : Codec := ⟨⟨[crossing], []⟩, {}⟩

def crossed : Message :=
  .mk [(1, .single (.scalar (.int32 1))), (2, .single (.scalar (.int32 2)))] []

theorem decode_paired :
    pairings.decode pairing (pairings.encode pairing paired).render =
      .ok (paired.spelled pairings.schema pairing) := by
  refine Codec.decode_render ?_ ?_ (by decide) (by cbv) (by cbv)
  · exact Schema.sound_of_wellFormed (by decide) (by decide)
  · exact Schema.uncrossed_of_noCrossedNames (by decide) (by decide)

theorem decodeMany_paired :
    pairings.decodeMany pairing (pairings.encodeMany pairing [paired]).render =
      .ok [Message.empty.spelled pairings.schema pairing] := by
  have hreadable : (pairings.encode pairing paired).written.isReadable = true := by cbv
  have hdepth : (pairings.encode pairing paired).depth + 1 ≤ maxDepth := by cbv
  have helement : (pairings.encode pairing paired).element = pairings.encode pairing .empty := by
    cbv
  have hclient : pairings.decodeSorted pairing (pairings.encode pairing .empty).render =
      .ok (Message.empty.spelled pairings.schema pairing) := by
    cbv
  rw [Codec.encodeMany, Codec.decodeMany_render_list]
  · simp only [List.map_cons, List.map_nil, List.mapM_cons, List.mapM_nil, helement, hclient]
    rfl
  · simpa using hdepth
  · simpa using hreadable
  · intro tree htree
    obtain rfl := List.mem_singleton.mp htree
    exact paired.exists_toTree_eq (by decide)

theorem decode_crossed :
    crossings.decode crossing (crossings.encode crossing crossed).render =
        .ok (.mk [(2, .single (.scalar (.int32 2)))] []) ∧
      crossings.decodeMany crossing (crossings.encodeMany crossing [crossed]).render =
        .ok [.mk [(2, .single (.scalar (.int32 1)))] []] := by
  have hwritten : (crossings.encode crossing crossed).written =
      .object [("b", .number (.int 1)), ("a", .number (.int 2))] := by
    cbv
  have hsorted : (crossings.encode crossing crossed).written.sorted =
      .object [("a", .number (.int 2)), ("b", .number (.int 1))] := by
    cbv
  have hreadable : (crossings.encode crossing crossed).written.isReadable = true := by
    rw [hwritten]
    rfl
  have hdepth : (crossings.encode crossing crossed).depth + 1 ≤ maxDepth := by cbv
  have helement : (crossings.encode crossing crossed).element =
      crossings.encode crossing crossed := by
    cbv
  constructor
  · rw [Codec.decode_of_parse? (Tree.parse?_render (Nat.le_of_succ_le hdepth)), hwritten]
    rfl
  · rw [Codec.encodeMany, Codec.decodeMany_render_list]
    · rw [List.map_singleton, List.mapM_cons, helement,
        Codec.decodeSorted_render (Nat.le_of_succ_le hdepth) hreadable, hsorted]
      rfl
    · simpa using hdepth
    · simpa using hreadable
    · intro tree htree
      obtain rfl := List.mem_singleton.mp htree
      exact crossed.exists_toTree_eq (by decide)

/-- Read from a sequence, a message that tells a client side is only that side, and one of a type
that crosses names may have the value of another field. -/
theorem decodeMany_paired_crossed :
    (paired.conforms pairings.schema pairing = true ∧
      (pairings.encode pairing paired).depth + 1 ≤ maxDepth ∧
      ∃ d m', pairings.decode pairing (pairings.encode pairing paired).render = .ok d ∧
        pairings.decodeMany pairing (pairings.encodeMany pairing [paired]).render = .ok [m'] ∧
        ¬ d.Alike m') ∧
    (crossed.conforms crossings.schema crossing = true ∧
      (crossings.encode crossing crossed).depth + 1 ≤ maxDepth ∧
      ∃ d m', crossings.decode crossing (crossings.encode crossing crossed).render = .ok d ∧
        crossings.decodeMany crossing (crossings.encodeMany crossing [crossed]).render = .ok [m'] ∧
        ¬ d.Alike m') := by
  refine ⟨⟨by decide +kernel, by cbv, _, _, decode_paired, decodeMany_paired, ?_⟩,
    ⟨by decide +kernel, by cbv, _, _, decode_crossed.1, decode_crossed.2, ?_⟩⟩
  · intro halike
    have hpaired : (paired.spelled pairings.schema pairing).get? 3 =
        some (.single (.scalar (.bool true))) := by
      cbv
    have hempty : (Message.empty.spelled pairings.schema pairing).get? 3 =
        some (.single (.scalar (.bool false))) := by
      cbv
    obtain ⟨w, hw, hsingle⟩ := halike.get? hpaired
    obtain rfl := Option.some.inj (hempty.symm.trans hw)
    cases hsingle with | single hvalue => cases hvalue
  · intro halike
    obtain ⟨w, hw, hsingle⟩ := halike.get? (n := 2) rfl
    obtain rfl := Option.some.inj hw
    cases hsingle with | single hvalue => cases hvalue

end Sample

end GrpcContract
