import GrpcContract.Message.OfJson
import GrpcContract.Message.Tree
import GrpcContract.Proofs.FloatText

/-!
# Text of trees

The text of a tree stands for a JSON value, `Tree.written`, in which members keep the order of
the tree and every leaf is what its own text is read as. For a leaf that is no finite
floating-point number this is its JSON value; a finite floating-point number may have a text that
is read as a neighbour of it, so that it reads back is a condition on a tree.
-/

namespace GrpcContract

open Json

/-! ### Leaves -/

/-- What the text of a leaf is read as. -/
def Leaf.written (l : Leaf) : Json :=
  (Json.parse? (String.ofList l.print)).getD .null

def Leaf.isFiniteFloat : Leaf → Bool
  | scalar (.float x) => x.isFinite
  | scalar (.double x) => x.isFinite
  | _ => false

/-- Whether a floating-point number is read back from its own text. -/
def Leaf.readsBack : Leaf → Bool
  | scalar (.float x) =>
    (Json.parse? (String.ofList (print (scalar (.float x))))).bind toFloat? == some x
  | scalar (.double x) =>
    (Json.parse? (String.ofList (print (scalar (.double x))))).bind toDouble? == some x
  | _ => true

namespace Leaf

theorem standsFor_toJson {l : Leaf} (hplain : l.isFiniteFloat = false) :
    StandsFor l.print l.toJson := by
  cases l with
  | symbol number name => exact standsFor_quote name
  | scalar x =>
      cases x with
      | bool b => exact standsFor_bool b
      | int32 n =>
          have hlow := n.le_toInt
          have hhigh := n.toInt_lt
          exact standsFor_int (by omega) (by omega)
      | int64 n =>
          have hlow := n.le_toInt
          have hhigh := n.toInt_lt
          exact standsFor_int (by omega) (by omega)
      | uint32 n =>
          have hhigh := n.toNat_lt
          exact standsFor_int (by omega) (by omega)
      | uint64 n =>
          have hhigh := n.toNat_lt
          exact standsFor_int (by omega) (by omega)
      | enum n =>
          have hlow := n.le_toInt
          have hhigh := n.toInt_lt
          exact standsFor_int (by omega) (by omega)
      | float x =>
          have hword : x.isFinite = false := hplain
          simp only [Leaf.print, Leaf.toJson, hword, Bool.false_eq_true, ↓reduceIte, Json.print]
          exact standsFor_quote _
      | double x =>
          have hword : x.isFinite = false := hplain
          simp only [Leaf.print, Leaf.toJson, hword, Bool.false_eq_true, ↓reduceIte, Json.print]
          exact standsFor_quote _
      | string s => exact standsFor_quote s
      | bytes bs => exact standsFor_quote _

theorem limitDepth_toJson (n : Nat) (l : Leaf) : l.toJson.limitDepth n = l.toJson := by
  cases l with
  | symbol number name => cases n <;> rfl
  | scalar x =>
      cases x with
      | float x | double x =>
          simp only [toJson]
          split <;> cases n <;> rfl
      | _ => cases n <;> rfl

theorem written_eq_toJson {l : Leaf} (hplain : l.isFiniteFloat = false) : l.written = l.toJson := by
  rw [written, (standsFor_toJson hplain).parse?, limitDepth_toJson, Option.getD_some]

/-- The text of a finite floating-point number stands for a number, if not always for itself. -/
theorem exists_standsFor_print {l : Leaf} (hfinite : l.isFiniteFloat = true) :
    ∃ literal, StandsFor l.print (ofLiteral literal) := by
  cases l with
  | symbol number name => exact absurd hfinite (by simp [isFiniteFloat])
  | scalar x =>
      cases x with
      | float x =>
          have hnumber : x.isFinite = true := hfinite
          simp only [Leaf.print, hnumber, ↓reduceIte]
          obtain ⟨literal, hwrites⟩ := Number.exists_writes (l := .json32) (f := .single)
            rfl (by decide) (by decide) x.isNegative x.magnitude
          exact ⟨literal, hwrites.standsFor_write32⟩
      | double x =>
          have hnumber : x.isFinite = true := hfinite
          simp only [Leaf.print, Leaf.toJson, hnumber, ↓reduceIte]
          obtain ⟨literal, hwrites⟩ := Number.exists_writes (l := .json64) (f := .double)
            rfl (by decide) (by decide) x.isNegative x.magnitude
          exact ⟨literal, hwrites.standsFor_write64⟩
      | _ => exact absurd hfinite (by simp [isFiniteFloat])

theorem toFloat?_written {x : Number.Binary32} (hback : (scalar (.float x)).readsBack = true) :
    (scalar (.float x)).written.toFloat? = some x := by
  obtain ⟨j, hparse, hread⟩ := Option.bind_eq_some_iff.mp (eq_of_beq hback)
  rw [written, hparse, Option.getD_some, hread]

theorem toDouble?_written {x : Number.Binary64} (hback : (scalar (.double x)).readsBack = true) :
    (scalar (.double x)).written.toDouble? = some x := by
  obtain ⟨j, hparse, hread⟩ := Option.bind_eq_some_iff.mp (eq_of_beq hback)
  rw [written, hparse, Option.getD_some, hread]

theorem exists_written_eq_ofLiteral {l : Leaf} (hfinite : l.isFiniteFloat = true) :
    ∃ literal, l.written = ofLiteral literal ∧ StandsFor l.print l.written := by
  obtain ⟨literal, hprint⟩ := exists_standsFor_print hfinite
  have hwritten : l.written = ofLiteral literal := by
    rw [written, hprint.parse?, limitDepth_ofLiteral, Option.getD_some]
  exact ⟨literal, hwritten, hwritten ▸ hprint⟩

theorem standsFor_written (l : Leaf) : StandsFor l.print l.written := by
  by_cases hfinite : l.isFiniteFloat = true
  · obtain ⟨literal, -, hprint⟩ := exists_written_eq_ofLiteral hfinite
    exact hprint
  · have hplain : l.isFiniteFloat = false := by simpa using hfinite
    rw [written_eq_toJson hplain]
    exact standsFor_toJson hplain

theorem limitDepth_written (n : Nat) (l : Leaf) : l.written.limitDepth n = l.written := by
  by_cases hfinite : l.isFiniteFloat = true
  · obtain ⟨literal, hwritten, -⟩ := exists_written_eq_ofLiteral hfinite
    rw [hwritten, limitDepth_ofLiteral]
  · rw [written_eq_toJson (by simpa using hfinite), limitDepth_toJson]

/-- The text of a leaf holds no other values. -/
theorem written_cases (l : Leaf) :
    (∀ members, l.written ≠ .object members) ∧ ∀ items, l.written ≠ .array items := by
  by_cases hfinite : l.isFiniteFloat = true
  · obtain ⟨literal, hwritten, -⟩ := exists_written_eq_ofLiteral hfinite
    rw [hwritten, ofLiteral]
    split <;> simp
  · rw [written_eq_toJson (by simpa using hfinite)]
    cases l with
    | symbol number name => simp [toJson]
    | scalar x =>
        cases x with
        | float x | double x =>
            simp only [toJson]
            split <;> simp
        | _ => simp [toJson]

theorem sorted_written (l : Leaf) : l.written.sorted = l.written := by
  obtain ⟨hobject, harray⟩ := l.written_cases
  cases hwritten : l.written with
  | object members => exact absurd hwritten (hobject members)
  | array items => exact absurd hwritten (harray items)
  | _ => rfl

end Leaf

/-! ### Trees -/

namespace Tree

mutual
/-- The JSON value that the text of a tree stands for. -/
def written : Tree → Json
  | leaf l => l.written
  | message fields => .object (fieldsWritten fields)
  | list items => .array (itemsWritten items)
  | map entries => .object (entriesWritten entries)

def fieldsWritten : List (String × Tree) → List (String × Json)
  | [] => []
  | (name, t) :: rest => (name, written t) :: fieldsWritten rest

def itemsWritten : List Tree → List Json
  | [] => []
  | t :: rest => written t :: itemsWritten rest

def entriesWritten : List (Leaf × Tree) → List (String × Json)
  | [] => []
  | (k, t) :: rest => (k.key, written t) :: entriesWritten rest
end

mutual
/-- How many arrays and objects the text of a tree nests. -/
def depth : Tree → Nat
  | leaf _ => 0
  | message fields => fieldsDepth fields + 1
  | list items => itemsDepth items + 1
  | map entries => entriesDepth entries + 1

def fieldsDepth : List (String × Tree) → Nat
  | [] => 0
  | (_, t) :: rest => max (depth t) (fieldsDepth rest)

def itemsDepth : List Tree → Nat
  | [] => 0
  | t :: rest => max (depth t) (itemsDepth rest)

def entriesDepth : List (Leaf × Tree) → Nat
  | [] => 0
  | (_, t) :: rest => max (depth t) (entriesDepth rest)
end

mutual
/-- Whether every floating-point number of the tree is read back from its own text. -/
def floatsReadBack : Tree → Bool
  | leaf l => l.readsBack
  | message fields => fieldsReadBack fields
  | list items => itemsReadBack items
  | map entries => entriesReadBack entries

def fieldsReadBack : List (String × Tree) → Bool
  | [] => true
  | (_, t) :: rest => floatsReadBack t && fieldsReadBack rest

def itemsReadBack : List Tree → Bool
  | [] => true
  | t :: rest => floatsReadBack t && itemsReadBack rest

def entriesReadBack : List (Leaf × Tree) → Bool
  | [] => true
  | (_, t) :: rest => floatsReadBack t && entriesReadBack rest
end

theorem fieldsWritten_eq_map (fields : List (String × Tree)) :
    fieldsWritten fields = fields.map fun field => (field.1, field.2.written) := by
  induction fields with
  | nil => rfl
  | cons field fields ih => rw [fieldsWritten, ih, List.map_cons]

theorem itemsWritten_eq_map (items : List Tree) : itemsWritten items = items.map written := by
  induction items with
  | nil => rfl
  | cons t items ih => rw [itemsWritten, ih, List.map_cons]

mutual
theorem standsFor_written : ∀ t : Tree, StandsFor t.print t.written
  | leaf l => l.standsFor_written
  | message fields => standsFor_object (membersStandFor_fields fields)
  | list items => standsFor_array (standFor_items items)
  | map entries => standsFor_object (membersStandFor_entries entries)

theorem membersStandFor_fields : ∀ fields : List (String × Tree),
    List.Forall₂ MemberStandsFor (printFields fields) (fieldsWritten fields)
  | [] => .nil
  | (_, t) :: rest => .cons ⟨t.print, rfl, standsFor_written t⟩ (membersStandFor_fields rest)

theorem standFor_items : ∀ items : List Tree,
    List.Forall₂ StandsFor (printItems items) (itemsWritten items)
  | [] => .nil
  | t :: rest => .cons (standsFor_written t) (standFor_items rest)

theorem membersStandFor_entries : ∀ entries : List (Leaf × Tree),
    List.Forall₂ MemberStandsFor (printEntries entries) (entriesWritten entries)
  | [] => .nil
  | (_, t) :: rest => .cons ⟨t.print, rfl, standsFor_written t⟩ (membersStandFor_entries rest)
end

mutual
theorem limitDepth_written : ∀ (t : Tree) (n : Nat), t.depth ≤ n →
    t.written.limitDepth n = t.written
  | leaf l, n, _ => l.limitDepth_written n
  | message fields, n + 1, hdepth =>
      congrArg Json.object (limitMembers_fields fields n (Nat.le_of_succ_le_succ hdepth))
  | list items, n + 1, hdepth =>
      congrArg Json.array (limitItems_items items n (Nat.le_of_succ_le_succ hdepth))
  | map entries, n + 1, hdepth =>
      congrArg Json.object (limitMembers_entries entries n (Nat.le_of_succ_le_succ hdepth))

theorem limitMembers_fields : ∀ (fields : List (String × Tree)) (n : Nat), fieldsDepth fields ≤ n →
    limitMembers n (fieldsWritten fields) = fieldsWritten fields
  | [], _, _ => rfl
  | (_, t) :: rest, n, hdepth => by
      have hmax := Nat.max_le.mp hdepth
      simp only [fieldsWritten, limitMembers, limitDepth_written t n hmax.1,
        limitMembers_fields rest n hmax.2]

theorem limitItems_items : ∀ (items : List Tree) (n : Nat), itemsDepth items ≤ n →
    limitItems n (itemsWritten items) = itemsWritten items
  | [], _, _ => rfl
  | t :: rest, n, hdepth => by
      have hmax := Nat.max_le.mp hdepth
      simp only [itemsWritten, limitItems, limitDepth_written t n hmax.1,
        limitItems_items rest n hmax.2]

theorem limitMembers_entries : ∀ (entries : List (Leaf × Tree)) (n : Nat),
    entriesDepth entries ≤ n → limitMembers n (entriesWritten entries) = entriesWritten entries
  | [], _, _ => rfl
  | (_, t) :: rest, n, hdepth => by
      have hmax := Nat.max_le.mp hdepth
      simp only [entriesWritten, limitMembers, limitDepth_written t n hmax.1,
        limitMembers_entries rest n hmax.2]
end

theorem parse?_render_limited (t : Tree) :
    Json.parse? t.render = some (t.written.limitDepth maxDepth) := by
  rw [render, (standsFor_written t).parse?]

/-- The text of a tree that does not nest too deeply is read as the value it stands for. -/
theorem parse?_render {t : Tree} (hdepth : t.depth ≤ maxDepth) :
    Json.parse? t.render = some t.written := by
  rw [parse?_render_limited, limitDepth_written t maxDepth hdepth]

end Tree

end GrpcContract
