import GrpcContract.Proofs.CodecRoundTrip
import GrpcContract.Proofs.Floatless
import GrpcContract.Proofs.Nesting
import GrpcContract.Proofs.SortedReading
import GrpcContract.Proofs.TextDepth
import GrpcContract.Sample.Kitchen
import GrpcContract.Stub.Matcher

/-!
# Echoed bodies

A matcher is given a message as text and may answer with that text. The text can be read again
exactly where it does not nest too deeply, which the wire does not see to: it has room for a
message of 64 levels in lists, whose text nests too deeply.
-/

namespace GrpcContract

open Json

/-! ### What can be read of a body -/

theorem Text.trim_cons_ne_nil {c : Char} (cs : List Char) (hblank : isBlank c = false) :
    trim (c :: cs) ≠ [] := by
  intro hnil
  rw [trim, List.dropWhile_cons_of_neg (by simp [hblank]), List.reverse_eq_nil_iff,
    List.dropWhile_eq_nil_iff] at hnil
  simpa [hblank] using hnil c (by simp)

theorem Message.trim_render_toTree (s : Schema) (t : MessageType) (m : Message) :
    Text.trim (m.toTree s t).render.toList ≠ [] := by
  obtain ⟨stored, unknown⟩ := m
  rw [Tree.render, String.toList_ofList, toTree, MessageType.assemble, Tree.print]
  exact Text.trim_cons_ne_nil _ (by decide)

section Codec

variable {c : Codec} {t : MessageType} {m : Message} (hsound : c.schema.Sound t)
  (huncrossed : c.schema.Uncrossed t) (hconf : m.conforms c.schema t = true)
  (hback : (c.encode t m).floatsReadBack = true)
include hsound huncrossed hconf hback

theorem Codec.ofJson_written_encode :
    Message.ofJson c.options c.schema t (c.encode t m).written = .ok (m.spelled c.schema t) := by
  obtain ⟨members, hwritten, hread⟩ :=
    membersOfJson_written c.options c.schema t m hsound huncrossed hconf hback
  rw [encode, hwritten, Message.ofJson, hread]

theorem Codec.decode_render (hdepth : (c.encode t m).depth ≤ maxDepth) :
    c.decode t (c.encode t m).render = .ok (m.spelled c.schema t) := by
  rw [decode, Tree.parse?_render hdepth]
  simp only [decodeJson, ofJson_written_encode hsound huncrossed hconf hback]
  rfl

/-- As one message of a sequence the text is read with its objects ordered by key. -/
theorem Codec.decodeMany_render (hdepth : (c.encode t m).depth ≤ maxDepth) :
    ∃ m', c.decodeMany t (c.encode t m).render = .ok [m'] := by
  have hread := ofJson_written_encode hsound huncrossed hconf hback
  obtain ⟨m', hm'⟩ := Message.ofJson_sorted hsound hread
  have hnonblank : ¬ Text.trim (c.encode t m).render.toList = [] := m.trim_render_toTree c.schema t
  rw [decodeMany, if_neg hnonblank, Tree.parseSorted?_render hdepth]
  cases hsorted : (c.encode t m).written.sorted with
  | object members =>
      rw [hsorted] at hm'
      exact ⟨m', by simp [decodeJson, hm', Except.mapError, bind, Except.bind, pure, Except.pure]⟩
  | _ =>
      rw [hsorted] at hm'
      cases hm'

end Codec

@[simp] theorem StubResponse.failure?_ok (text : String) : (ok text).failure? = none :=
  rfl

@[simp] theorem StubResponse.body_ok (text : String) : (ok text).body?.getD "" = text :=
  rfl

/-- Whether a request's body can be read: as a JSON value, as a message of the method's input
type, and, where the method answers with messages of that type, as the answer of a matcher. -/
structure StubRequest.Readable (r : StubRequest) (c : Codec) (method : Method) : Prop where
  json : r.bodyJson?.isSome = true
  message : ∃ m, c.decode (c.schema.messageType method.input) r.body = .ok m
  echo : method.output = method.input →
    ∃ ms, StubResponse.outcome c method (Matcher.echo r) = .ok ms

/-- A message that was read from the wire nests at most 63 levels deep, or only one by one, in a
text that does not nest too deeply. -/
theorem Message.depth_le_maxDepth {s : Schema} {t : MessageType} (hsound : s.Sound t)
    {bs : List UInt8} {m : Message} (hread : Message.read? s t bs = some m)
    (hnesting : m.levels ≤ 63 ∨ s.OneByOne t) : (m.toTree s t).depth ≤ maxDepth := by
  have hconf := Message.conforms_of_read? hsound hread
  have hmax : maxDepth = 127 := rfl
  rcases hnesting with hlevels | hsingle
  · have hdepth := Message.depth_toTree s t m (.inl (Nat.le_refl 2)) hconf
    omega
  · have hdepth := Message.depth_toTree s t m (.inr ⟨Nat.le_refl 1, hsingle⟩) hconf
    have hlevels := Message.levels_of_read? hread
    have hwire : Message.maxLevels = 101 := rfl
    omega

namespace StubRequest

variable {c : Codec} {method : Method} {m : Message}
  (hsound : c.schema.Sound (c.schema.messageType method.input))
  (huncrossed : c.schema.Uncrossed (c.schema.messageType method.input))
include hsound huncrossed

theorem readable_of_depth (hconf : m.conforms c.schema (c.schema.messageType method.input) = true)
    (hback : (c.encode (c.schema.messageType method.input) m).floatsReadBack = true)
    (hdepth : (c.encode (c.schema.messageType method.input) m).depth ≤ maxDepth) :
    (ofMessage c method m).Readable c method where
  json := Tree.isSome_parseSorted?_render.mpr hdepth
  message := ⟨_, Codec.decode_render hsound huncrossed hconf hback hdepth⟩
  echo houtput := by
    have hone := Codec.decode_render hsound huncrossed hconf hback hdepth
    obtain ⟨m', hmany⟩ := Codec.decodeMany_render hsound huncrossed hconf hback hdepth
    simp only [Matcher.echo, StubResponse.outcome, StubResponse.outputs, StubResponse.failure?_ok,
      StubResponse.body_ok, ofMessage, withBody, houtput]
    cases method.shape.isServerStreaming with
    | true => exact ⟨[m'], by simp only [↓reduceIte, hmany, Except.mapError]⟩
    | false => exact ⟨_, by simp only [Bool.false_eq_true, ↓reduceIte, hone]; rfl⟩

/-- The body that a matcher is given for a message from the wire can be read exactly where it does
not nest too deeply. It never does where the message has at most 63 levels, nor where the messages
in it are held one by one. -/
theorem readable_ofMessage {bs : List UInt8}
    (hread : Message.read? c.schema (c.schema.messageType method.input) bs = some m)
    (hfloats : c.schema.Floatless (c.schema.messageType method.input) ∨
      (c.encode (c.schema.messageType method.input) m).floatsReadBack = true) :
    ((ofMessage c method m).Readable c method ↔
      (c.encode (c.schema.messageType method.input) m).depth ≤ maxDepth) ∧
    (c.options.ignoreUnknown = false →
      (∃ m', c.decode (c.schema.messageType method.input) (ofMessage c method m).body = .ok m') →
      (c.encode (c.schema.messageType method.input) m).depth ≤ maxDepth) ∧
    (m.levels ≤ 63 ∨ c.schema.OneByOne (c.schema.messageType method.input) →
      (ofMessage c method m).Readable c method) := by
  have hconf := Message.conforms_of_read? hsound hread
  have hback : (c.encode (c.schema.messageType method.input) m).floatsReadBack = true :=
    hfloats.elim (fun hfloatless => m.floatsReadBack_toTree c.schema _ hsound hfloatless hconf) id
  have hreadable := readable_of_depth hsound huncrossed hconf hback
  refine ⟨⟨?_, hreadable⟩, ?_, ?_⟩
  · intro hreads
    exact Tree.isSome_parseSorted?_render.mp hreads.json
  · rintro hstrict ⟨m', hm'⟩
    exact Codec.depth_le_of_decode hstrict hm'
  · intro hnesting
    exact hreadable (Message.depth_le_maxDepth hsound hread hnesting)

end StubRequest

/-! ### A message in a list in a message -/

namespace Sample

def pantry : Codec := ⟨kitchen "oracle.v1", {}⟩

def root : MessageType := Kitchen.tree "oracle.v1"

def row : Field := .declare "row" 11 (.many (.message root.name))

/-- A message that nests `n` more, each alone in the list of the one before. -/
def rows : Nat → Message
  | 0 => .empty
  | n + 1 => .mk [(row.number, .list [.message (rows n)])] []

/-- The binary form of such a message, while lengths take one byte. -/
def rowBytes : Nat → List UInt8
  | 0 => []
  | n + 1 => 0x5A :: UInt8.ofNat (2 * n) :: rowBytes n

theorem length_rowBytes (n : Nat) : (rowBytes n).length = 2 * n := by
  induction n with
  | zero => rfl
  | succ n ih => simp [rowBytes, ih]; omega

theorem readNumber_of_lt {b : UInt8} (hlast : b < 128) (rest : List UInt8) :
    Wire.readNumber (b :: rest) = some (b.toNat, rest) := by
  simp [Wire.readNumber, Wire.readVarint, hlast]

theorem records?_rowBytes {n : Nat} (hn : n < 64) (isBytes : Nat → Bool) (depth : Nat) :
    Wire.records? isBytes depth (rowBytes (n + 1)) = some [(11, .bytes (rowBytes n))] := by
  have hlength : (UInt8.ofNat (2 * n)).toNat = (rowBytes n).length := by
    rw [length_rowBytes, UInt8.toNat_ofNat']
    omega
  have hlast : UInt8.ofNat (2 * n) < 128 := by
    rw [UInt8.lt_iff_toNat_lt, hlength, length_rowBytes]
    exact Nat.mul_lt_mul_of_pos_left hn (by decide)
  have htag : Wire.readTag (rowBytes (n + 1)) =
      some ((11, .bytes), UInt8.ofNat (2 * n) :: rowBytes n) := by
    rw [rowBytes, Wire.readTag, readNumber_of_lt (by decide)]
    rfl
  have hcontent (fuel : Nat) : Wire.readValue (fuel + 1) depth 11 .bytes
      (UInt8.ofNat (2 * n) :: rowBytes n) = some (.bytes (rowBytes n), []) := by
    rw [Wire.readValue, Wire.readDelimited, readNumber_of_lt hlast, hlength]
    simp [Wire.take?]
  have hcons : rowBytes (n + 1) = 0x5A :: UInt8.ofNat (2 * n) :: rowBytes n := rfl
  rw [Wire.records?, length_rowBytes, Nat.mul_succ, Wire.readRecords]
  · simp only [htag, Option.bind_eq_bind, Option.bind_some, ite_self, hcontent]
    cases n <;> rfl
  · simp [hcons]

theorem row_mem : row ∈ root.fields := by
  decide

theorem field?_row : root.field? row.number = some row := by
  decide

theorem target_row : row.shape.valueType.target pantry.schema = root := by
  decide

theorem mergeBytes_rowBytes {n : Nat} (hn : n ≤ 64) (spare : Nat) :
    Message.mergeBytes pantry.schema (spare + n + 1) root .empty (rowBytes n) =
      some (rows n) := by
  induction n with
  | zero => rfl
  | succ n ih =>
      have hrecords := records?_rowBytes hn root.isMapNumber (spare + n + 1)
      have hinner := ih (Nat.le_of_succ_le hn)
      have hfield : root.field? 11 = some row := by decide
      have htype : pantry.schema.messageType root.name = root := by decide
      have hmerge (depth : Nat) : row.merge (Message.mergeBytes pantry.schema (spare + n + 1))
          pantry.schema depth none (.bytes (rowBytes n)) = some (.list [.message (rows n)]) := by
        simp [Field.merge, row, Field.declare, Shape.many, FieldType.readItems, FieldType.form,
          Value.merge, htype, hinner]
      rw [← Nat.add_assoc, Message.mergeBytes, hrecords]
      simp only [Option.bind_eq_bind, Option.bind_some, List.foldlM_cons, List.foldlM_nil,
        Message.mergeRecord, hfield]
      have hempty : Message.empty.get? row.number = none := rfl
      rw [hempty, hmerge]
      rfl

theorem lookup_rows (n : Nat) :
    (fieldTrees pantry.schema root [(row.number, .list [.message (rows n)])]).lookup row.number =
      some (.list [(rows n).toTree pantry.schema root]) := by
  simp [fieldTrees, field?_row, FieldValue.toTree, listTrees, Value.toTree, target_row]

theorem depth_rows (n : Nat) : 2 * n + 2 ≤ ((rows n).toTree pantry.schema root).depth := by
  have hshown (fields : List (Nat × FieldValue)) : row ∈ root.shown fields :=
    MessageType.mem_shown.mpr ⟨row_mem, .inl rfl⟩
  induction n with
  | zero => exact Message.depth_of_shown [] (hshown [])
  | succ n ih =>
      have hrow := Message.depth_of_shown (s := pantry.schema) []
        (hshown [(row.number, .list [.message (rows n)])])
      rw [lookup_rows, Option.getD_some, Tree.depth, Tree.itemsDepth, Tree.itemsDepth] at hrow
      rw [rows]
      omega

theorem levels_rows (n : Nat) : (rows n).levels = n + 1 := by
  induction n with
  | zero => rfl
  | succ n ih => simp [rows, Message.levels, fieldsLevels, FieldValue.levels, valuesLevels,
      Value.levels, ih]

theorem sound_root : pantry.schema.Sound root :=
  Schema.sound_of_wellFormed (by decide) (by decide)

theorem uncrossed_root : pantry.schema.Uncrossed root :=
  Schema.uncrossed_of_noCrossedNames (by decide) (by decide)

theorem floatsReadBack_rows (n : Nat) :
    ((rows n).toTree pantry.schema root).floatsReadBack = true := by
  have hdefault (f : Field) (hf : f ∈ root.fields) :
      (f.defaultTree pantry.schema).floatsReadBack = true := by
    have hfloat : ∀ f ∈ root.fields, f.shape.valueType.isFloat = false ∧
        ∀ g ∈ (f.shape.valueType.target pantry.schema).fields, g.oneof? = none →
          g.shape.valueType.isFloat = false := by
      decide
    exact Field.floatsReadBack_defaultTree (sound_root.wellFormed.2.2 f hf) (hfloat f hf).1
      (MessageType.floatsReadBack_defaultTree (sound_root.target hf).wellFormed (hfloat f hf).2)
  induction n with
  | zero =>
      apply Message.floatsReadBack_of_shown []
      intro f hshown
      exact hdefault f (MessageType.mem_shown.mp hshown).1
  | succ n ih =>
      apply Message.floatsReadBack_of_shown []
      intro f hshown
      by_cases hrow : f.number = row.number
      · rw [hrow, lookup_rows]
        simp [Tree.floatsReadBack, Tree.itemsReadBack, ih]
      · have hother : (fieldTrees pantry.schema root
            [(row.number, .list [.message (rows n)])]).lookup f.number = none := by
          simp [fieldTrees, lookup_cons_ite, hrow]
        rw [hother]
        exact hdefault f (MessageType.mem_shown.mp hshown).1

theorem read?_rowBytes {n : Nat} (hn : n ≤ 64) :
    Message.read? pantry.schema root (rowBytes n) = some (rows n) := by
  have hlevels : Message.maxLevels = (100 - n) + n + 1 := by
    have hwire : Message.maxLevels = 101 := rfl
    omega
  rw [Message.read?, hlevels, mergeBytes_rowBytes hn]

def treeMethod : Method where
  service := "oracle.v1.EchoService"
  name := "Tree"
  input := root.name
  output := root.name
  clientStreaming := false
  serverStreaming := false

theorem messageType_treeMethod : pantry.schema.messageType treeMethod.input = root := by
  decide

theorem readable_rows :
    Message.read? pantry.schema root (rowBytes 62) = some (rows 62) ∧
      (StubRequest.ofMessage pantry treeMethod (rows 62)).Readable pantry treeMethod := by
  have hread := read?_rowBytes (by decide : 62 ≤ 64)
  have hlevels : (rows 62).levels ≤ 63 := Nat.le_of_eq (levels_rows 62)
  have hfloats : (pantry.encode root (rows 62)).floatsReadBack = true := floatsReadBack_rows 62
  refine ⟨hread, ?_⟩
  rw [← messageType_treeMethod] at hread hfloats
  exact (StubRequest.readable_ofMessage (messageType_treeMethod ▸ sound_root)
    (messageType_treeMethod ▸ uncrossed_root) hread (.inr hfloats)).2.2 (.inl hlevels)

/-- With one level more the wire still has the message, but its text cannot be read: the call of a
matcher that answers with it fails. -/
theorem unreadable_rows :
    Message.read? pantry.schema root (rowBytes 63) = some (rows 63) ∧
      (StubRequest.ofMessage pantry treeMethod (rows 63)).bodyJson? = none ∧
      (∀ m, pantry.decode root (StubRequest.ofMessage pantry treeMethod (rows 63)).body ≠ .ok m) ∧
      ∃ message, StubResponse.outcome pantry treeMethod
        (Matcher.echo (StubRequest.ofMessage pantry treeMethod (rows 63))) =
          .error (.because .internal message) := by
  have hback : (pantry.encode root (rows 63)).floatsReadBack = true := floatsReadBack_rows 63
  have hdeep : ¬ (pantry.encode root (rows 63)).depth ≤ maxDepth :=
    Nat.not_le_of_lt (depth_rows 63)
  have hbody : (StubRequest.ofMessage pantry treeMethod (rows 63)).body =
      (pantry.encode root (rows 63)).render := by
    rw [StubRequest.ofMessage, messageType_treeMethod, StubRequest.withBody]
  have hdecode (m : Message) :
      pantry.decode root (pantry.encode root (rows 63)).render ≠ .ok m := by
    intro hread
    exact hdeep (Codec.depth_le_of_decode rfl hread)
  refine ⟨read?_rowBytes (by decide), ?_, fun m => hbody ▸ hdecode m, ?_⟩
  · rw [StubRequest.bodyJson?, hbody, ← Option.not_isSome_iff_eq_none]
    intro hsome
    exact hdeep (Tree.isSome_parseSorted?_render.mp hsome)
  · cases hanswer : pantry.decode root (pantry.encode root (rows 63)).render with
    | ok m => exact absurd hanswer (hdecode m)
    | error e =>
        have hshape : treeMethod.shape.isServerStreaming = false := rfl
        have htype : pantry.schema.messageType treeMethod.output = root := messageType_treeMethod
        refine ⟨"Response body must contain a valid output message: " ++ e.describe, ?_⟩
        simp only [Matcher.echo, StubResponse.outcome, StubResponse.outputs,
          StubResponse.failure?_ok, StubResponse.body_ok, hbody, hshape, htype,
          Bool.false_eq_true, ↓reduceIte, hanswer]

end Sample

end GrpcContract
