import GrpcContract.Codec
import GrpcContract.Proofs.Results
import GrpcContract.Sample.Schema
import Mathlib

/-!
# Leniency about what is not declared

A lenient reader skips the keys and the names that the schema does not declare; a strict one stops
at the first of them. Up to there both go the same way, at every depth of a value, so a lenient
reader answers otherwise only where a strict one is stopped.
-/

namespace GrpcContract

/-- A value is no message because of a name that the schema does not declare. -/
inductive JsonMismatch.Undeclared : JsonMismatch → Prop
  | field (key : String) : Undeclared (.unknownField key)
  | symbol (name : String) : Undeclared (.unknownSymbol name)

namespace CodecOptions

def strict : CodecOptions := ⟨false⟩

def lenient : CodecOptions := ⟨true⟩

end CodecOptions

open CodecOptions JsonMismatch

/-! ### Values -/

theorem EnumType.ofJson_follows (e : EnumType) (j : Json) :
    Except.Follows Undeclared (e.ofJson lenient j) (e.ofJson strict j) := by
  cases j with
  | string name =>
      simp only [EnumType.ofJson]
      cases e.numberOf? name with
      | some number => exact .refl _ _
      | none => exact .of_error (.symbol name)
  | number n => cases n <;> exact .refl _ _
  | _ => exact .refl _ _

theorem leafOfJson_follows (type : FieldType) (j : Json) :
    Except.Follows Undeclared (leafOfJson lenient type j) (leafOfJson strict type j) := by
  cases type with
  | scalar kind => exact .refl _ _
  | enum e => exact (e.ofJson_follows j).map _
  | message name => exact .refl _ _

mutual
theorem valueOfJson_follows (s : Schema) (type : FieldType) : ∀ j : Json,
    Except.Follows Undeclared (valueOfJson lenient s type j) (valueOfJson strict s type j)
  | .object members => by
      cases type with
      | message name =>
          exact (membersOfJson_follows s (s.messageType name) .empty members).map _
      | scalar kind =>
          simp only [valueOfJson]
          exact leafOfJson_follows _ _
      | enum e =>
          simp only [valueOfJson]
          exact leafOfJson_follows _ _
  | .null | .bool _ | .number _ | .string _ | .array _ | .unreadable => leafOfJson_follows type _

theorem fieldOfJson_follows (s : Schema) (shape : Shape) : ∀ j : Json,
    Except.Follows Undeclared (fieldOfJson lenient s shape j) (fieldOfJson strict s shape j)
  | .null => .refl _ _
  | .object members => by
      cases shape with
      | single type presence default? =>
          cases type with
          | message name =>
              exact (membersOfJson_follows s (s.messageType name) .empty members).map _
          | scalar kind => exact (leafOfJson_follows _ _).map _
          | enum e =>
              simp only [fieldOfJson]
              exact (leafOfJson_follows _ _).map _
      | «repeated» type packed => exact .refl _ _
      | map key value => exact (entriesOfJson_follows s key value [] members).map _
  | .array items => by
      cases shape with
      | single type presence default? => exact (leafOfJson_follows _ _).map _
      | «repeated» type packed => exact (itemsOfJson_follows s type items).map _
      | map key value => exact .refl _ _
  | .bool _ | .number _ | .string _ | .unreadable => by
      cases shape with
      | single type presence default? => exact (leafOfJson_follows _ _).map _
      | «repeated» type packed => exact .refl _ _
      | map key value => exact .refl _ _

theorem membersOfJson_follows (s : Schema) (t : MessageType) (m : Message) :
    ∀ members : List (String × Json), Except.Follows Undeclared
      (membersOfJson lenient s t m members) (membersOfJson strict s t m members)
  | [] => .refl _ _
  | (key, j) :: rest => by
      simp only [membersOfJson]
      cases t.keyed? key with
      | none => exact .of_error (.field key)
      | some f =>
          exact (fieldOfJson_follows s f.shape j).bind fun v? =>
            (Except.Follows.refl _ (m.give t f v?)).bind fun m => membersOfJson_follows s t m rest

theorem itemsOfJson_follows (s : Schema) (type : FieldType) : ∀ items : List Json,
    Except.Follows Undeclared (itemsOfJson lenient s type items) (itemsOfJson strict s type items)
  | [] => .refl _ _
  | j :: rest =>
      (valueOfJson_follows s type j).bind fun _ =>
        (itemsOfJson_follows s type rest).bind fun _ => .refl _ _

theorem entriesOfJson_follows (s : Schema) (key : ScalarKind) (value : FieldType)
    (entries : List (MapKey × Value)) : ∀ members : List (String × Json),
    Except.Follows Undeclared (entriesOfJson lenient s key value entries members)
      (entriesOfJson strict s key value entries members)
  | [] => .refl _ _
  | (_, j) :: rest =>
      (Except.Follows.refl _ _).bind fun _ =>
        (valueOfJson_follows s value j).bind fun _ => entriesOfJson_follows s key value _ rest
end

theorem Message.ofJson_follows (s : Schema) (t : MessageType) (j : Json) :
    Except.Follows Undeclared (Message.ofJson lenient s t j) (Message.ofJson strict s t j) := by
  cases j with
  | object members => exact membersOfJson_follows s t .empty members
  | _ => exact .refl _ _

/-! ### Texts -/

/-- A text is no message of a type because of a name that the schema does not declare. -/
def Failure.Undeclared (t : MessageType) (e : Failure) : Prop :=
  ∃ why : JsonMismatch, why.Undeclared ∧ e = .invalidMessage t why

namespace Codec

/-- The codec of a schema that stops at what is not declared. -/
def strict (s : Schema) : Codec := ⟨s, .strict⟩

/-- The codec of a schema that skips what is not declared. -/
def lenient (s : Schema) : Codec := ⟨s, .lenient⟩

variable (s : Schema) (t : MessageType)

theorem decodeJson_follows (j : Json) : Except.Follows (Failure.Undeclared t)
    ((lenient s).decodeJson t j) ((strict s).decodeJson t j) :=
  (Message.ofJson_follows s t j).mapError fun why hwhy => ⟨why, hwhy, rfl⟩

theorem decode_follows (text : String) : Except.Follows (Failure.Undeclared t)
    ((lenient s).decode t text) ((strict s).decode t text) := by
  unfold decode
  cases Json.parse? text with
  | none => exact .refl _ _
  | some j => exact decodeJson_follows s t j

theorem decodeSorted_follows (text : String) : Except.Follows (Failure.Undeclared t)
    ((lenient s).decodeSorted t text) ((strict s).decodeSorted t text) := by
  unfold decodeSorted
  cases Json.parseSorted? text with
  | none => exact .refl _ _
  | some j => exact decodeJson_follows s t j

theorem decodeMany_follows (text : String) : Except.Follows (Failure.Undeclared t)
    ((lenient s).decodeMany t text) ((strict s).decodeMany t text) := by
  unfold decodeMany
  split
  · exact .refl _ _
  · split
    · exact .refl _ _
    · exact .mapM (fun item => decodeJson_follows s t (clientSide item)) _
    · exact (decodeJson_follows s t _).bind fun m => .refl _ _
    · exact .refl _ _

/-- Leniency only ever accepts more: what a strict codec reads from a text, as one message, by way
of a JSON value, or as many, a lenient one reads as the same. Where the two differ at all, the
strict one was stopped by a name that the schema does not declare. -/
theorem lenient_of_strict (text : String) :
    (∀ m, (strict s).decode t text = .ok m → (lenient s).decode t text = .ok m) ∧
      (∀ m, (strict s).decodeSorted t text = .ok m → (lenient s).decodeSorted t text = .ok m) ∧
      (∀ ms, (strict s).decodeMany t text = .ok ms → (lenient s).decodeMany t text = .ok ms) ∧
      ((lenient s).decode t text ≠ (strict s).decode t text →
        ∃ e, Failure.Undeclared t e ∧ (strict s).decode t text = .error e) ∧
      ((lenient s).decodeMany t text ≠ (strict s).decodeMany t text →
        ∃ e, Failure.Undeclared t e ∧ (strict s).decodeMany t text = .error e) :=
  ⟨fun _ => (decode_follows s t text).ok_of_ok, fun _ => (decodeSorted_follows s t text).ok_of_ok,
    fun _ => (decodeMany_follows s t text).ok_of_ok,
    fun hne => (decode_follows s t text).resolve_left hne,
    fun hne => (decodeMany_follows s t text).resolve_left hne⟩

end Codec

namespace Sample

/-- A node within a node, everything declared. -/
def knownNode : String := "\x7b\"child\":\x7b\"v\":2\x7d\x7d"

/-- A node within a node, which has a key that is not declared. -/
def strangeNode : String := "\x7b\"child\":\x7b\"w\":2\x7d\x7d"

def inArray (text : String) : String := "[" ++ text ++ "]"

theorem decode_knownNode :
    (Codec.strict schema).decode node knownNode =
        .ok (.mk [(2, .single (.message (.mk [(1, .single (.scalar (.int32 2)))] [])))] []) ∧
      (Codec.strict schema).decodeSorted node knownNode =
        .ok (.mk [(2, .single (.message (.mk [(1, .single (.scalar (.int32 2)))] [])))] []) ∧
      (Codec.strict schema).decodeMany node (inArray knownNode) =
        .ok [.mk [(2, .single (.message (.mk [(1, .single (.scalar (.int32 2)))] [])))] []] := by
  have hparse : Json.parse? knownNode =
      some (.object [("child", .object [("v", .number (.int 2))])]) := by
    cbv
  have hsorted : Json.parseSorted? knownNode =
      some (.object [("child", .object [("v", .number (.int 2))])]) := by
    cbv
  have hitems : Json.parseSorted? (inArray knownNode) =
      some (.array [.object [("child", .object [("v", .number (.int 2))])]]) := by
    cbv
  have htext : Text.trim (inArray knownNode).toList ≠ [] := by decide +kernel
  refine ⟨?_, ?_, ?_⟩
  · rw [Codec.decode, hparse]
    rfl
  · rw [Codec.decodeSorted, hsorted]
    rfl
  · rw [Codec.decodeMany, if_neg htext, hitems]
    rfl

theorem decode_strangeNode (c : Codec) :
    c.decode node strangeNode =
        c.decodeJson node (.object [("child", .object [("w", .number (.int 2))])]) ∧
      c.decodeMany node (inArray strangeNode) =
        [Json.object [("child", .object [("w", .number (.int 2))])]].mapM fun item =>
          c.decodeJson node (Codec.clientSide item) := by
  have hparse : Json.parse? strangeNode =
      some (.object [("child", .object [("w", .number (.int 2))])]) := by
    cbv
  have hitems : Json.parseSorted? (inArray strangeNode) =
      some (.array [.object [("child", .object [("w", .number (.int 2))])]]) := by
    cbv
  have htext : Text.trim (inArray strangeNode).toList ≠ [] := by decide +kernel
  constructor
  · rw [Codec.decode, hparse]
  · rw [Codec.decodeMany, if_neg htext, hitems]

theorem lenient_of_strict_nodes :
    (Codec.lenient schema).decode node knownNode = (Codec.strict schema).decode node knownNode ∧
      (Codec.lenient schema).decodeSorted node knownNode =
        (Codec.strict schema).decodeSorted node knownNode ∧
      (Codec.lenient schema).decodeMany node (inArray knownNode) =
        (Codec.strict schema).decodeMany node (inArray knownNode) ∧
      (∃ e, Failure.Undeclared node e ∧ (Codec.strict schema).decode node strangeNode = .error e) ∧
      ∃ e, Failure.Undeclared node e ∧
        (Codec.strict schema).decodeMany node (inArray strangeNode) = .error e := by
  obtain ⟨hone, hsorted, hmany⟩ := decode_knownNode
  obtain ⟨hstrict, hstricts⟩ := decode_strangeNode (.strict schema)
  obtain ⟨hlenient, hlenients⟩ := decode_strangeNode (.lenient schema)
  refine ⟨?_, ?_, ?_, ?_, ?_⟩
  · rw [hone]
    exact (Codec.lenient_of_strict schema node knownNode).1 _ hone
  · rw [hsorted]
    exact (Codec.lenient_of_strict schema node knownNode).2.1 _ hsorted
  · rw [hmany]
    exact (Codec.lenient_of_strict schema node (inArray knownNode)).2.2.1 _ hmany
  · apply (Codec.lenient_of_strict schema node strangeNode).2.2.2.1
    rw [hlenient, hstrict]
    exact nofun
  · apply (Codec.lenient_of_strict schema node (inArray strangeNode)).2.2.2.2
    rw [hlenients, hstricts]
    exact nofun

end Sample

end GrpcContract
