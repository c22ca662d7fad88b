import GrpcContract.Proofs.TextDepth
import GrpcContract.Proofs.TextNesting
import GrpcContract.Schema.Declare

/-!
# Two JSON views of a tree

A tree has a JSON value, and a text that is read as one. Both are one walk over the tree, which
makes a value of every leaf: the leaf's own value, or what its own text is read as. So they have the
same objects under the same keys and the same arrays, and differ at most in leaves that are finite
floating-point numbers.
-/

namespace GrpcContract

open Json Number

/-! ### Leaves -/

/-- A finite 32-bit number in the two views: `y` is read from its text and `z` is its value. -/
structure SingleViews (x : Binary32) (y z : Binary64) : Prop where
  isNegative : z.isNegative = x.isNegative
  abs : z.abs = x.abs
  rounds : y.toBinary32 = x
  /-- The two are equal if the decimal in the text is the number itself. -/
  eq_of_spelled : ∃ literal,
    readLiteral x.isNegative (Layout.json32.writeMagnitude .single x.magnitude) =
      some (literal, []) ∧
    (literal.digits * 10 ^ literal.scaleExponent = x.abs → y = z)

/-- A finite 64-bit number, and the number `y` that is read from its text. -/
structure DoubleViews (x y : Binary64) : Prop where
  isFinite : y.isFinite = true
  isNegative : y.isNegative = x.isNegative
  /-- The two are equal if the text has few digits and a small power of ten. -/
  eq_of_few : ∃ literal,
    readLiteral x.isNegative (Layout.json64.writeMagnitude .double x.magnitude) =
      some (literal, []) ∧
    (literal.digits < 2 ^ 53 → literal.scaleExponent.natAbs ≤ 22 → y = x)
  close : (2 : ℚ) ^ (-960 : Int) ≤ x.abs → |y.abs - x.abs| ≤ x.abs / 2 ^ 50

/-- The two views of a leaf: they agree unless it is a finite floating-point number, and are numbers
close to each other if it is. -/
structure Leaf.Views (l : Leaf) : Prop where
  plain : l.isFiniteFloat = false → l.written = l.toJson
  float : ∀ x, l = scalar (.float x) → x.isFinite = true → ∃ y z,
    l.written = .number (.float y) ∧ l.toJson = .number (.float z) ∧ SingleViews x y z
  double : ∀ x, l = scalar (.double x) → x.isFinite = true → ∃ y,
    l.written = .number (.float y) ∧ l.toJson = .number (.float x) ∧ DoubleViews x y

theorem Leaf.views (l : Leaf) : l.Views := by
  refine ⟨written_eq_toJson, ?_, ?_⟩
  · rintro x rfl hfinite
    obtain ⟨literal, y, hwrites, hreads, hwritten⟩ := exists_written_float hfinite
    refine ⟨y, x.toBinary64, hwritten, ?_, x.isNegative_toBinary64 hfinite,
      x.abs_toBinary64 hfinite, hreads.toBinary32, literal, hwrites.read, hreads.eq_of_spelled⟩
    rw [toJson, if_pos hfinite]
  · rintro x rfl hfinite
    obtain ⟨literal, y, hwrites, hreads, hwritten⟩ := exists_written_double hfinite
    refine ⟨y, hwritten, ?_, Literal.isFinite_of_scale? hreads.read, hreads.isNegative,
      ⟨literal, hwrites.read, hreads.eq_of_few⟩, hreads.close⟩
    rw [toJson, if_pos hfinite]

/-! ### Trees -/

namespace Tree

mutual
/-- A JSON view of a tree: every leaf is what `f` makes of it, every object ordered by key. -/
def view (f : Leaf → Json) : Tree → Json
  | leaf l => f l
  | message fields => .object (sortMembers (fieldsView f fields))
  | list items => .array (itemsView f items)
  | map entries => .object (sortMembers (entriesView f entries))

def fieldsView (f : Leaf → Json) : List (String × Tree) → List (String × Json)
  | [] => []
  | (name, t) :: rest => (name, view f t) :: fieldsView f rest

def itemsView (f : Leaf → Json) : List Tree → List Json
  | [] => []
  | t :: rest => view f t :: itemsView f rest

def entriesView (f : Leaf → Json) : List (Leaf × Tree) → List (String × Json)
  | [] => []
  | (k, t) :: rest => (k.key, view f t) :: entriesView f rest
end

mutual
/-- The leaves of a tree, keys of maps not counted. -/
def leaves : Tree → List Leaf
  | leaf l => [l]
  | message fields => fieldsLeaves fields
  | list items => itemsLeaves items
  | map entries => entriesLeaves entries

def fieldsLeaves : List (String × Tree) → List Leaf
  | [] => []
  | (_, t) :: rest => leaves t ++ fieldsLeaves rest

def itemsLeaves : List Tree → List Leaf
  | [] => []
  | t :: rest => leaves t ++ itemsLeaves rest

def entriesLeaves : List (Leaf × Tree) → List Leaf
  | [] => []
  | (_, t) :: rest => leaves t ++ entriesLeaves rest
end

mutual
theorem toJson_eq_view : ∀ t : Tree, t.toJson = t.view Leaf.toJson
  | leaf _ => rfl
  | message fields => congrArg (Json.object ∘ sortMembers) (fieldsToJson_eq fields)
  | list items => congrArg Json.array (itemsToJson_eq items)
  | map entries =>
      congrArg (Json.object ∘ sortMembers) (entriesToJson_eq entries)

theorem fieldsToJson_eq : ∀ fields : List (String × Tree),
    fieldsToJson fields = fieldsView Leaf.toJson fields
  | [] => rfl
  | (_, t) :: rest => by rw [fieldsToJson, fieldsView, toJson_eq_view t, fieldsToJson_eq rest]

theorem itemsToJson_eq : ∀ items : List Tree, itemsToJson items = itemsView Leaf.toJson items
  | [] => rfl
  | t :: rest => by rw [itemsToJson, itemsView, toJson_eq_view t, itemsToJson_eq rest]

theorem entriesToJson_eq : ∀ entries : List (Leaf × Tree),
    entriesToJson entries = entriesView Leaf.toJson entries
  | [] => rfl
  | (_, t) :: rest => by rw [entriesToJson, entriesView, toJson_eq_view t, entriesToJson_eq rest]
end

mutual
theorem sorted_written : ∀ t : Tree, t.written.sorted = t.view Leaf.written
  | leaf l => l.sorted_written
  | message fields =>
      congrArg (Json.object ∘ sortMembers) (sortedMembers_fields fields)
  | list items => congrArg Json.array (sortedItems_items items)
  | map entries =>
      congrArg (Json.object ∘ sortMembers) (sortedMembers_entries entries)

theorem sortedMembers_fields : ∀ fields : List (String × Tree),
    sortedMembers (fieldsWritten fields) = fieldsView Leaf.written fields
  | [] => rfl
  | (_, t) :: rest => by
      rw [fieldsWritten, sortedMembers, fieldsView, sorted_written t, sortedMembers_fields rest]

theorem sortedItems_items : ∀ items : List Tree,
    sortedItems (itemsWritten items) = itemsView Leaf.written items
  | [] => rfl
  | t :: rest => by
      rw [itemsWritten, sortedItems, itemsView, sorted_written t, sortedItems_items rest]

theorem sortedMembers_entries : ∀ entries : List (Leaf × Tree),
    sortedMembers (entriesWritten entries) = entriesView Leaf.written entries
  | [] => rfl
  | (_, t) :: rest => by
      rw [entriesWritten, sortedMembers, entriesView, sorted_written t, sortedMembers_entries rest]
end

section Congr

variable {f g : Leaf → Json}

mutual
/-- Views that agree at the leaves of a tree agree. -/
theorem view_congr : ∀ t : Tree, (∀ l ∈ t.leaves, f l = g l) → t.view f = t.view g
  | leaf l, hsame => hsame l (List.mem_singleton_self l)
  | message fields, hsame =>
      congrArg (Json.object ∘ sortMembers) (fieldsView_congr fields hsame)
  | list items, hsame => congrArg Json.array (itemsView_congr items hsame)
  | map entries, hsame =>
      congrArg (Json.object ∘ sortMembers) (entriesView_congr entries hsame)

theorem fieldsView_congr : ∀ fields : List (String × Tree),
    (∀ l ∈ fieldsLeaves fields, f l = g l) → fieldsView f fields = fieldsView g fields
  | [], _ => rfl
  | (_, t) :: rest, hsame => by
      obtain ⟨hfirst, hrest⟩ := List.forall_mem_append.mp hsame
      rw [fieldsView, fieldsView, view_congr t hfirst, fieldsView_congr rest hrest]

theorem itemsView_congr : ∀ items : List Tree,
    (∀ l ∈ itemsLeaves items, f l = g l) → itemsView f items = itemsView g items
  | [], _ => rfl
  | t :: rest, hsame => by
      obtain ⟨hfirst, hrest⟩ := List.forall_mem_append.mp hsame
      rw [itemsView, itemsView, view_congr t hfirst, itemsView_congr rest hrest]

theorem entriesView_congr : ∀ entries : List (Leaf × Tree),
    (∀ l ∈ entriesLeaves entries, f l = g l) → entriesView f entries = entriesView g entries
  | [], _ => rfl
  | (_, t) :: rest, hsame => by
      obtain ⟨hfirst, hrest⟩ := List.forall_mem_append.mp hsame
      rw [entriesView, entriesView, view_congr t hfirst, entriesView_congr rest hrest]
end

end Congr

end Tree

/-- The text of a message, unless it nests too deeply, and the message's JSON value are two views of
one tree. Their leaves are equal but for finite floating-point numbers: the text of one of 32 bits
is read as a number that rounds to it, and the text of one of 64 bits as a number close to it. -/
theorem Codec.views_encode (c : Codec) (t : MessageType) (m : Message)
    (hnesting : nesting (c.encode t m).render ≤ maxDepth) :
    let tree := c.encode t m
    Json.parseSorted? tree.render = some (tree.view Leaf.written) ∧
      tree.toJson = tree.view Leaf.toJson ∧ (∀ l ∈ tree.leaves, l.Views) ∧
      ((∀ l ∈ tree.leaves, l.written = l.toJson) →
        Json.parseSorted? tree.render = some tree.toJson) := by
  intro tree
  have hdepth : tree.depth ≤ maxDepth := by rwa [← tree.nesting_render]
  have hread : Json.parseSorted? tree.render = some (tree.view Leaf.written) := by
    rw [Tree.parseSorted?_render hdepth, tree.sorted_written]
  refine ⟨hread, tree.toJson_eq_view, fun l _ => l.views, fun hsame => ?_⟩
  rw [hread, tree.toJson_eq_view, tree.view_congr hsame]

namespace Sample

/-- A type with a number of either size. -/
def caliper : MessageType :=
  ⟨"Caliper", [
    .declare "single" 1 (.single (.scalar .float) .explicit none),
    .declare "double" 2 (.single (.scalar .double) .explicit none)]⟩

def calipers : Codec := ⟨⟨[caliper], []⟩, {}⟩

/-- A message of a number of either size. -/
def measured (x : Binary32) (y : Binary64) : Message :=
  .mk [(1, .single (.scalar (.float x))), (2, .single (.scalar (.double y)))] []

theorem encode_measured (x : Binary32) (y : Binary64) : calipers.encode caliper (measured x y) =
    .message [("single", .leaf (.scalar (.float x))), ("double", .leaf (.scalar (.double y)))] := by
  cbv

theorem nesting_measured (x : Binary32) (y : Binary64) :
    nesting (calipers.encode caliper (measured x y)).render ≤ maxDepth := by
  rw [Tree.nesting_render, encode_measured]
  exact (by decide : 1 ≤ maxDepth)

/-- The views agree where both numbers are a half. -/
theorem views_encode_measured :
    let tree := calipers.encode caliper (measured ⟨0x3F000000⟩ ⟨0x3FE0000000000000⟩)
    nesting tree.render ≤ maxDepth ∧ (∀ l ∈ tree.leaves, l.Views) ∧
      Json.parseSorted? tree.render = some tree.toJson := by
  have hnesting := nesting_measured ⟨0x3F000000⟩ ⟨0x3FE0000000000000⟩
  obtain ⟨-, -, hviews, hagree⟩ := calipers.views_encode caliper _ hnesting
  refine ⟨hnesting, hviews, hagree ?_⟩
  rw [encode_measured]
  intro l hl
  rcases List.mem_pair.mp hl with rfl | rfl <;> rfl

/-- The views of one message differ in a number of 32 bits and in one of 64 bits. -/
theorem views_ne :
    let tree := calipers.encode caliper (measured ⟨0x3DCCCCCD⟩ ⟨0x3FED1EB851EB851E⟩)
    nesting tree.render ≤ maxDepth ∧ Json.parseSorted? tree.render ≠ some tree.toJson ∧
      (tree.toJson.field "single").toDouble? = some ⟨0x3FB99999A0000000⟩ ∧
      (Json.parseSorted? tree.render).bind (fun j => (j.field "single").toDouble?) =
        some ⟨0x3FB999999999999A⟩ ∧
      (tree.toJson.field "double").toDouble? = some ⟨0x3FED1EB851EB851E⟩ ∧
      (Json.parseSorted? tree.render).bind (fun j => (j.field "double").toDouble?) =
        some ⟨0x3FED1EB851EB851F⟩ := by
  refine ⟨nesting_measured _ _, ?_⟩
  rw [encode_measured]
  refine ⟨?_, by decide +kernel, by decide +kernel, by decide +kernel, by decide +kernel⟩
  intro hsame
  have hread := congrArg (·.bind fun j => (j.field "single").toDouble?) hsame
  exact absurd hread (by decide +kernel)

end Sample

end GrpcContract
