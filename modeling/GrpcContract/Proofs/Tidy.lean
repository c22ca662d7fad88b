import GrpcContract.Message.OfJson
import Mathlib.Tactic.Tauto

/-!
# Tidy values

A value is tidy as one of a type if no two members of one of its objects mean the same field, or
the same key of a map, and if nothing of it is skipped.
-/

namespace GrpcContract

section Tidy

variable (o : CodecOptions) (s : Schema)

mutual
/-- Whether no two members of an object of the value mean one field, or one key of a map. What a
reader would skip is not tidy either; a strict reader skips nothing. -/
def tidyValue (type : FieldType) : Json → Bool
  | .object members =>
    match type with
    | .message name => tidyMembers (s.messageType name) members
    | _ => true
  | _ => true

def tidyField (shape : Shape) : Json → Bool
  | .object members =>
    match shape with
    | .single (.message name) _ _ => tidyMembers (s.messageType name) members
    | .map key value => tidyEntries key value members
    | _ => true
  | .array items =>
    match shape with
    | .repeated type _ => tidyItems type items
    | _ => true
  | _ => true

def tidyMembers (t : MessageType) : List (String × Json) → Bool
  | [] => true
  | (key, j) :: rest =>
    (match t.keyed? key with
      | none => !o.ignoreUnknown
      | some f => tidyField f.shape j && rest.all fun other => t.keyed? other.1 != some f) &&
    tidyMembers t rest

def tidyItems (type : FieldType) : List Json → Bool
  | [] => true
  | j :: rest => tidyValue type j && tidyItems type rest

def tidyEntries (key : ScalarKind) (value : FieldType) : List (String × Json) → Bool
  | [] => true
  | (text, j) :: rest =>
    ((key.keyOfText? text).all fun k => rest.all fun other => key.keyOfText? other.1 != some k) &&
      tidyValue value j && tidyEntries key value rest
end

/-- Whether a value is tidy as a message of a type. -/
def Json.isTidy (t : MessageType) : Json → Bool
  | .object members => tidyMembers o s t members
  | _ => true

variable {o s}

theorem tidyMembers_iff {t : MessageType} {members : List (String × Json)} :
    tidyMembers o s t members = true ↔
      members.Pairwise (fun a b => ∀ f, t.keyed? a.1 = some f → t.keyed? b.1 ≠ some f) ∧
      ∀ member ∈ members, match t.keyed? member.1 with
        | none => o.ignoreUnknown = false
        | some f => tidyField o s f.shape member.2 = true := by
  induction members with
  | nil => simp [tidyMembers]
  | cons member members ih =>
      obtain ⟨key, j⟩ := member
      rw [tidyMembers, Bool.and_eq_true, ih, List.pairwise_cons, List.forall_mem_cons]
      cases hkeyed : t.keyed? key with
      | none =>
          simp
          tauto
      | some f =>
          simp
          tauto

theorem tidyEntries_iff {key : ScalarKind} {value : FieldType} {members : List (String × Json)} :
    tidyEntries o s key value members = true ↔
      members.Pairwise (fun a b => ∀ k, key.keyOfText? a.1 = some k →
        key.keyOfText? b.1 ≠ some k) ∧
      ∀ member ∈ members, tidyValue o s value member.2 = true := by
  induction members with
  | nil => simp [tidyEntries]
  | cons member members ih =>
      obtain ⟨text, j⟩ := member
      rw [tidyEntries, Bool.and_eq_true, Bool.and_eq_true, ih, List.pairwise_cons,
        List.forall_mem_cons]
      cases hkey : key.keyOfText? text with
      | none =>
          simp
          tauto
      | some k =>
          simp
          tauto

/-! ### What is left of a value that nests too deeply -/

theorem Json.all_limitMembers (p : String → Bool) (n : Nat) (members : List (String × Json)) :
    (Json.limitMembers n members).all (fun member => p member.1) =
      members.all fun member => p member.1 := by
  induction members with
  | nil => rfl
  | cons member members ih => simp only [Json.limitMembers, List.all_cons, ih]

mutual
theorem tidyValue_limitDepth : ∀ (type : FieldType) (j : Json) (n : Nat),
    tidyValue o s type j = true → tidyValue o s type (j.limitDepth n) = true
  | .message name, .object members, n + 1, htidy =>
      tidyMembers_limitMembers (s.messageType name) members n htidy
  | .scalar _, .object _, _ + 1, _ | .enum _, .object _, _ + 1, _ => rfl
  | _, .object _, 0, _ | _, .array _, 0, _ | _, .array _, _ + 1, _ => rfl
  | _, .null, n, _ | _, .bool _, n, _ | _, .number _, n, _ | _, .string _, n, _
  | _, .unreadable, n, _ => by cases n <;> rfl

theorem tidyField_limitDepth : ∀ (shape : Shape) (j : Json) (n : Nat),
    tidyField o s shape j = true → tidyField o s shape (j.limitDepth n) = true
  | .single (.message name) _ _, .object members, n + 1, htidy =>
      tidyMembers_limitMembers (s.messageType name) members n htidy
  | .map key value, .object members, n + 1, htidy =>
      tidyEntries_limitMembers key value members n htidy
  | .repeated type _, .array items, n + 1, htidy => tidyItems_limitItems type items n htidy
  | .single (.scalar _) _ _, .object _, _ + 1, _ | .single (.enum _) _ _, .object _, _ + 1, _ => rfl
  | .repeated .., .object _, _ + 1, _ | .single .., .array _, _ + 1, _ => rfl
  | .map .., .array _, _ + 1, _ => rfl
  | _, .object _, 0, _ | _, .array _, 0, _ => rfl
  | _, .null, n, _ | _, .bool _, n, _ | _, .number _, n, _ | _, .string _, n, _
  | _, .unreadable, n, _ => by cases n <;> rfl

theorem tidyMembers_limitMembers : ∀ (t : MessageType) (members : List (String × Json)) (n : Nat),
    tidyMembers o s t members = true → tidyMembers o s t (Json.limitMembers n members) = true
  | _, [], _, _ => rfl
  | t, (key, j) :: rest, n, htidy => by
      simp only [tidyMembers, Bool.and_eq_true] at htidy
      simp only [Json.limitMembers, tidyMembers, Bool.and_eq_true]
      refine ⟨?_, tidyMembers_limitMembers t rest n htidy.2⟩
      cases hkeyed : t.keyed? key with
      | none => simpa [hkeyed] using htidy.1
      | some f =>
          simp only [hkeyed, Bool.and_eq_true] at htidy ⊢
          rw [Json.all_limitMembers (fun key => t.keyed? key != some f)]
          exact ⟨tidyField_limitDepth f.shape j n htidy.1.1, htidy.1.2⟩

theorem tidyItems_limitItems : ∀ (type : FieldType) (items : List Json) (n : Nat),
    tidyItems o s type items = true → tidyItems o s type (Json.limitItems n items) = true
  | _, [], _, _ => rfl
  | type, j :: rest, n, htidy => by
      simp only [tidyItems, Bool.and_eq_true] at htidy
      simp only [Json.limitItems, tidyItems, tidyValue_limitDepth type j n htidy.1,
        tidyItems_limitItems type rest n htidy.2, Bool.and_self]

theorem tidyEntries_limitMembers : ∀ (key : ScalarKind) (value : FieldType)
    (members : List (String × Json)) (n : Nat), tidyEntries o s key value members = true →
    tidyEntries o s key value (Json.limitMembers n members) = true
  | _, _, [], _, _ => rfl
  | key, value, (text, j) :: rest, n, htidy => by
      simp only [tidyEntries, Bool.and_eq_true] at htidy
      simp only [Json.limitMembers, tidyEntries, Bool.and_eq_true]
      refine ⟨⟨?_, tidyValue_limitDepth value j n htidy.1.2⟩,
        tidyEntries_limitMembers key value rest n htidy.2⟩
      cases hkey : key.keyOfText? text with
      | none => rfl
      | some k =>
          simp only [hkey, Option.all_some] at htidy ⊢
          rw [Json.all_limitMembers (fun text => key.keyOfText? text != some k)]
          exact htidy.1.1
end

theorem Json.isTidy_limitDepth {t : MessageType} {j : Json} (htidy : j.isTidy o s t = true)
    (n : Nat) : (j.limitDepth n).isTidy o s t = true := by
  cases j with
  | object members =>
      cases n with
      | zero => rfl
      | succ n => exact tidyMembers_limitMembers t members n htidy
  | _ => cases n <;> rfl

end Tidy

end GrpcContract
