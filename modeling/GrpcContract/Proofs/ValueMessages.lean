import GrpcContract.Proofs.Nesting
import GrpcContract.Proofs.SingleBodies
import GrpcContract.Proofs.SortedReading
import GrpcContract.Proofs.TextDepth
import GrpcContract.Proofs.Varints
import GrpcContract.Sample.Cases
import Mathlib

/-!
# Messages of values

The messages of the sample service hold one number, or a list of numbers. A number that is zero
leaves no trace on the wire, and neither does an empty list; what is read then shows the same value.
-/

namespace GrpcContract.Sample

open Json

def valueField : Field := .declare "value" 1 (.one (.scalar .int64))

def valuesField : Field := .declare "value" 1 (.many (.scalar .int64))

/-- The message of a list of numbers. -/
def valuesMessage (vs : List Int64) : Message :=
  Message.empty.put 1 (.list (vs.map fun v => .scalar (.int64 v)))

/-- What a reader has of the message of a number. -/
def valueReceived (v : Int64) : Message :=
  if v = 0 then .empty else valueMessage v.toInt

def valuesReceived (vs : List Int64) : Message :=
  if vs = [] then .empty else valuesMessage vs

variable (s : Schema) (name : String)

theorem field?_oneValue : (oneValue name).field? 1 = some valueField := by
  simp [oneValue, MessageType.field?, Field.declare, valueField]

theorem field?_manyValues : (manyValues name).field? 1 = some valuesField := by
  simp [manyValues, MessageType.field?, Field.declare, valuesField]

theorem named?_oneValue : (oneValue name).named? "value" = some valueField := by
  simp [oneValue, MessageType.named?, Field.declare, valueField]

theorem named?_manyValues : (manyValues name).named? "value" = some valuesField := by
  simp [manyValues, MessageType.named?, Field.declare, valuesField]

theorem fields_valueMessage (v : Int64) :
    valueMessage v.toInt = .mk [(1, .single (.scalar (.int64 v)))] [] := by
  rw [valueMessage, Int64.ofInt_toInt]
  rfl

/-! ### On the wire -/

theorem readsNumbers_int64 :
    (FieldType.scalar .int64).ReadsNumbers (fun v : Int64 => v.toUInt64.toNat) .int64 where
  form := rfl
  lt v := v.toUInt64.toNat_lt
  ofWire v := by simp [FieldType.ofWire?, ScalarKind.ofWire?]

theorem write_valueMessage (v : Int64) :
    (valueMessage v.toInt).write s (oneValue name) =
      if v = 0 then [] else Wire.tag 1 .varint ++ Wire.varint v.toUInt64.toNat := by
  rw [fields_valueMessage]
  by_cases hzero : v = 0
  · simp [Message.write, writeFields, field?_oneValue, Field.holds, valueField, Field.declare,
      Shape.one, Scalar.isZero, hzero]
  · simp [Message.write, writeFields, field?_oneValue, Field.holds, valueField, Field.declare,
      Shape.one, Scalar.isZero, hzero, FieldValue.write, Value.write, Shape.valueType,
      FieldType.form, ScalarKind.form, FieldType.writeScalar, ScalarKind.write]

/-- A record alone gives its value to its field. -/
theorem read?_of_records {t : MessageType} {f : Field} {bs : List UInt8} {w : WireValue}
    {v : FieldValue}
    (hrecords : ∀ depth, Wire.records? t.isMapNumber depth bs = some [(f.number, w)])
    (hfield : t.field? f.number = some f)
    (hmerge : ∀ (nested : MergeBytes) depth, f.merge nested s depth none w = some v) :
    Message.read? s t bs = some (Message.empty.set t f v) := by
  have hlevels : Message.maxLevels = 100 + 1 := rfl
  have hempty : Message.empty.get? f.number = none := rfl
  rw [Message.read?, hlevels, Message.mergeBytes, hrecords]
  simp [Message.mergeRecord, hfield, hempty, hmerge]

theorem read?_valueMessage (v : Int64) :
    Message.read? s (oneValue name) ((valueMessage v.toInt).write s (oneValue name)) =
      some (valueReceived v) := by
  rw [write_valueMessage, valueReceived]
  by_cases hzero : v = 0
  · rw [if_pos hzero, if_pos hzero]
    rfl
  · have hnumber : (oneValue name).isMapNumber 1 = false := by
      simp [MessageType.isMapNumber, field?_oneValue, valueField, Field.declare, Shape.one]
    have hmerge (nested : MergeBytes) (depth : Nat) :
        valueField.merge nested s depth none (.varint (UInt64.ofNat v.toUInt64.toNat)) =
          some (.single (.scalar (.int64 v))) := by
      simp [Field.merge, valueField, Field.declare, Shape.one, Value.merge, FieldType.ofWire?,
        ScalarKind.ofWire?]
    rw [if_neg hzero, if_neg hzero, fields_valueMessage]
    exact read?_of_records s
      (fun depth => Wire.records?_varint depth (by decide) (by decide) hnumber
        (readsNumbers_int64.lt v))
      (field?_oneValue name) hmerge

/-- The packed bytes of a list of numbers. -/
def packed (vs : List Int64) : List UInt8 :=
  vs.flatMap fun v => Wire.varint v.toUInt64.toNat

theorem length_le_packed (vs : List Int64) : vs.length ≤ (packed vs).length := by
  induction vs with
  | nil => exact Nat.le_refl _
  | cons v vs ih =>
      have hpos := Wire.length_varint_pos v.toUInt64.toNat
      rw [packed] at ih ⊢
      rw [List.flatMap_cons, List.length_append, List.length_cons]
      omega

theorem writeList_int64 (vs : List Int64) :
    (writeList s (.scalar .int64) (vs.map fun v => .scalar (.int64 v))).flatten = packed vs := by
  induction vs with
  | nil => rfl
  | cons v vs ih =>
      rw [List.map_cons, writeList, List.flatten_cons, ih]
      rfl

theorem write_valuesMessage (vs : List Int64) :
    (valuesMessage vs).write s (manyValues name) =
      if vs = [] then [] else Wire.bytesRecord 1 (packed vs) := by
  rw [← writeList_int64 s vs]
  by_cases hempty : vs = []
  · simp [Message.write, valuesMessage, Message.put, Message.empty, Message.fields, insertNumbered,
      Message.unknown, writeFields, field?_manyValues, Field.holds, hempty]
  · simp [Message.write, valuesMessage, Message.put, Message.empty, Message.fields, insertNumbered,
      Message.unknown, writeFields, field?_manyValues, Field.holds, hempty, FieldValue.write,
      valuesField, Field.declare, Shape.many]

theorem length_write_valueMessage (v : Int64) :
    ((valueMessage v.toInt).write s (oneValue name)).length ≤ 11 := by
  have hvarint : (Wire.varint v.toUInt64.toNat).length ≤ 9 + 1 :=
    Wire.length_varint_le (Nat.lt_trans v.toUInt64.toNat_lt (by decide))
  have htag : Wire.tag 1 .varint = [8] := Wire.varint_of_lt (by decide)
  rw [write_valueMessage]
  split
  · exact Nat.zero_le _
  · rw [List.length_append, htag, List.length_singleton]
    omega

theorem length_write_valuesMessage {vs : List Int64} (hne : vs ≠ []) :
    ((valuesMessage vs).write s (manyValues name)).length =
      1 + (Wire.varint (packed vs).length).length + (packed vs).length := by
  have htag : Wire.tag 1 .bytes = [10] := Wire.varint_of_lt (by decide)
  rw [write_valuesMessage, if_neg hne]
  simp only [Wire.bytesRecord, Wire.delimited, List.length_append, htag, List.length_singleton]
  omega

theorem length_packed_le (vs : List Int64) :
    (packed vs).length ≤ ((valuesMessage vs).write s (manyValues name)).length := by
  by_cases hempty : vs = []
  · simp [hempty, packed]
  · rw [length_write_valuesMessage s name hempty]
    omega

theorem length_packed_replicate (n : Nat) (v : Int64) :
    (packed (List.replicate n v)).length = n * (Wire.varint v.toUInt64.toNat).length := by
  simp [packed, List.flatMap_def]

theorem write_zeros {n : Nat} (hn : n ≠ 0) :
    (valuesMessage (List.replicate n 0)).write s (manyValues name) =
      10 :: (Wire.varint n ++ List.replicate n 0) := by
  have hvarint : Wire.varint (0 : Int64).toUInt64.toNat = [0] := Wire.varint_of_lt (by decide)
  have htag : Wire.tag 1 .bytes = [10] := Wire.varint_of_lt (by decide)
  have hpacked : packed (List.replicate n 0) = List.replicate n 0 := by
    rw [packed, List.flatMap_def, List.map_replicate, hvarint, List.flatten_replicate_singleton]
  rw [write_valuesMessage, if_neg (mt (List.replicate_eq_nil_iff 0).mp hn), hpacked,
    Wire.bytesRecord, Wire.delimited, List.length_replicate, htag]
  rfl

theorem read?_valuesMessage {vs : List Int64} (hlength : (packed vs).length < 0x10000000000000000) :
    Message.read? s (manyValues name) ((valuesMessage vs).write s (manyValues name)) =
      some (valuesReceived vs) := by
  rw [write_valuesMessage, valuesReceived]
  by_cases hempty : vs = []
  · rw [if_pos hempty, if_pos hempty]
    rfl
  · have hpacked := readsNumbers_int64.readPacked vs (length_le_packed vs)
    have hmerge (nested : MergeBytes) (depth : Nat) :
        valuesField.merge nested s depth none (.bytes (packed vs)) =
          some (.list (vs.map fun v => .scalar (.int64 v))) := by
      rw [← packed] at hpacked
      simp [Field.merge, valuesField, Field.declare, Shape.many, FieldType.readItems,
        FieldType.form, ScalarKind.form, hpacked, Function.comp_def]
    rw [if_neg hempty, if_neg hempty]
    exact read?_of_records s
      (fun depth => Wire.records?_bytesRecord _ depth (by decide) (by decide) hlength)
      (field?_manyValues name) hmerge

theorem valuesOf_valueReceived (v : Int64) :
    valuesOf (oneValue name) (valueReceived v) = [v.toInt] := by
  by_cases hzero : v = 0
  · simp [valuesOf, named?_oneValue, valueReceived, hzero, Message.get, Message.get?,
      Message.empty, Message.fields, Field.default, valueField, Field.declare, Shape.one,
      FieldType.zero?, ScalarKind.zero]
  · simp [valuesOf, named?_oneValue, valueReceived, hzero, fields_valueMessage, Message.get,
      Message.get?, Message.fields, valueField, Field.declare]

theorem valuesOf_valuesReceived (vs : List Int64) :
    valuesOf (manyValues name) (valuesReceived vs) = vs.map Int64.toInt := by
  by_cases hempty : vs = []
  · simp [valuesOf, named?_manyValues, valuesReceived, hempty, Message.get, Message.get?,
      Message.empty, Message.fields, Field.default, valuesField, Field.declare, Shape.many]
  · simp [valuesOf, named?_manyValues, valuesReceived, hempty, valuesMessage, Message.put,
      Message.get, Message.get?, Message.empty, Message.fields, insertNumbered, valuesField,
      Field.declare, List.filterMap_map]

/-! ### As texts -/

def valueTree (v : Int64) : Tree :=
  .message [("value", .leaf (.scalar (.int64 v)))]

def valuesTree (vs : List Int64) : Tree :=
  .message [("value", .list (vs.map fun v => .leaf (.scalar (.int64 v))))]

def numberJson (v : Int64) : Json :=
  .number (.int v.toInt)

theorem toTree_valueMessage (v : Int64) :
    (valueMessage v.toInt).toTree s (oneValue name) = valueTree v := by
  rw [fields_valueMessage]
  simp [Message.toTree, MessageType.assemble, MessageType.ordered, oneValue, fieldTrees,
    MessageType.field?, Field.declare, Shape.one, Field.oneof?, FieldValue.toTree, Value.toTree,
    FieldType.leaf, Shape.valueType, valueTree]

theorem toTree_valueReceived (v : Int64) :
    (valueReceived v).toTree s (oneValue name) = valueTree v := by
  by_cases hzero : v = 0
  · simp [valueReceived, hzero, Message.empty, Message.toTree, MessageType.assemble,
      MessageType.ordered, oneValue, fieldTrees, Field.declare, Shape.one, Field.oneof?,
      Field.defaultTree, Field.default, FieldType.zero?, ScalarKind.zero, Field.bareTree,
      Shape.valueType, FieldType.leaf, valueTree]
  · rw [valueReceived, if_neg hzero, toTree_valueMessage]

theorem listTrees_int64 (vs : List Int64) :
    listTrees s (.scalar .int64) (vs.map fun v => .scalar (.int64 v)) =
      vs.map fun v => .leaf (.scalar (.int64 v)) := by
  induction vs with
  | nil => rfl
  | cons v vs ih =>
      rw [List.map_cons, listTrees, ih]
      rfl

theorem toTree_valuesMessage (vs : List Int64) :
    (valuesMessage vs).toTree s (manyValues name) = valuesTree vs := by
  simp [valuesMessage, Message.put, Message.empty, Message.fields, Message.unknown, insertNumbered,
    Message.toTree, MessageType.assemble, MessageType.ordered, manyValues, fieldTrees,
    MessageType.field?, Field.declare, Shape.many, Field.oneof?, FieldValue.toTree,
    Shape.valueType, listTrees_int64, valuesTree]

theorem toTree_valuesReceived (vs : List Int64) :
    (valuesReceived vs).toTree s (manyValues name) = valuesTree vs := by
  by_cases hempty : vs = []
  · simp [valuesReceived, hempty, Message.empty, Message.toTree, MessageType.assemble,
      MessageType.ordered, manyValues, fieldTrees, Field.declare, Shape.many, Field.oneof?,
      Field.defaultTree, Field.default, Field.bareTree, valuesTree]
  · rw [valuesReceived, if_neg hempty, toTree_valuesMessage]

theorem written_number (v : Int64) : (Leaf.scalar (.int64 v)).written = numberJson v :=
  Leaf.written_eq_toJson rfl

theorem written_valueTree (v : Int64) : (valueTree v).written = Store.valueOf (numberJson v) := by
  simp [valueTree, Tree.written, Tree.fieldsWritten, written_number, Store.valueOf]

theorem written_valuesTree (vs : List Int64) :
    (valuesTree vs).written = Store.valueOf (.array (vs.map numberJson)) := by
  simp [valuesTree, Tree.written, Tree.fieldsWritten, Tree.itemsWritten_eq_map, written_number,
    Store.valueOf, Function.comp_def]

theorem written_list (vs : List Int64) :
    (Tree.list (vs.map valueTree)).written =
      .array (vs.map fun v => Store.valueOf (numberJson v)) := by
  simp [Tree.written, Tree.itemsWritten_eq_map, written_valueTree, Function.comp_def]

theorem render_valueOf (v : Int64) :
    (Store.valueOf (numberJson v)).render = (valueTree v).render := rfl

theorem printItems_map {α : Type} (json : α → Json) (tree : α → Tree)
    (hprint : ∀ a, (json a).print = (tree a).print) (as : List α) :
    printItems (as.map json) = Tree.printItems (as.map tree) := by
  induction as with
  | nil => rfl
  | cons a as ih => rw [List.map_cons, List.map_cons, printItems, Tree.printItems, hprint, ih]

theorem render_valuesOf (vs : List Int64) :
    (Store.valueOf (.array (vs.map numberJson))).render = (valuesTree vs).render := by
  have hitems := printItems_map numberJson (fun v => .leaf (.scalar (.int64 v))) (fun _ => rfl) vs
  simp [Json.render, Tree.render, Store.valueOf, valuesTree, Json.print, Tree.print,
    Json.printMembers, Tree.printFields, hitems]

theorem render_array (vs : List Int64) :
    (Json.array (vs.map fun v => Store.valueOf (numberJson v))).render =
      (Tree.list (vs.map valueTree)).render := by
  have hitems := printItems_map (fun v => Store.valueOf (numberJson v)) valueTree (fun _ => rfl) vs
  simp [Json.render, Tree.render, Json.print, Tree.print, hitems]

/-- A text that is read as a value whose objects are ordered already. -/
theorem parse?_of_written {t : Tree} {j : Json} (hwritten : t.written = j)
    (hdepth : t.depth ≤ maxDepth) (hreadable : j.isReadable = true) (hsorted : j.sorted = j) :
    parse? t.render = some j ∧ parseSorted? t.render = some j := by
  have hparse := Tree.parse?_render hdepth
  rw [hwritten] at hparse
  refine ⟨hparse, ?_⟩
  rw [parseSorted?, hparse, Option.filter_some, if_pos hreadable, Option.map_some, hsorted]

theorem sorted_valueOf {j : Json} (hsorted : j.sorted = j) :
    (Store.valueOf j).sorted = Store.valueOf j := by
  simp [Store.valueOf, sorted, sortedMembers, sortMembers, insertMember, hsorted]

theorem sorted_array {items : List Json} (hsorted : ∀ j ∈ items, j.sorted = j) :
    (Json.array items).sorted = .array items := by
  have hitems : items.map sorted = items.map id := List.map_congr_left hsorted
  rw [sorted, sortedItems_eq_map, hitems, List.map_id]

theorem parse?_valueTree (v : Int64) :
    parse? (valueTree v).render = some (Store.valueOf (numberJson v)) ∧
      parseSorted? (valueTree v).render = some (Store.valueOf (numberJson v)) :=
  parse?_of_written (written_valueTree v)
    (by simp [valueTree, Tree.depth, Tree.fieldsDepth, maxDepth]) rfl (sorted_valueOf rfl)

theorem parse?_valuesTree (vs : List Int64) :
    parse? (valuesTree vs).render = some (Store.valueOf (.array (vs.map numberJson))) ∧
      parseSorted? (valuesTree vs).render = some (Store.valueOf (.array (vs.map numberJson))) := by
  apply parse?_of_written (written_valuesTree vs)
  · have hitems : Tree.itemsDepth (vs.map fun v => .leaf (.scalar (.int64 v))) ≤ 0 :=
      Tree.itemsDepth_le_iff.mpr (List.forall_mem_map.mpr fun _ _ => Nat.le_refl _)
    simp only [valuesTree, Tree.depth, Tree.fieldsDepth, maxDepth]
    omega
  · have hitems : allReadable (vs.map numberJson) = true :=
      allReadable_iff.mpr (List.forall_mem_map.mpr fun _ _ => rfl)
    simp [Store.valueOf, isReadable, membersReadable, hitems]
  · exact sorted_valueOf (sorted_array (List.forall_mem_map.mpr fun _ _ => rfl))

theorem parse?_list (vs : List Int64) :
    parse? (Tree.list (vs.map valueTree)).render =
        some (.array (vs.map fun v => Store.valueOf (numberJson v))) ∧
      parseSorted? (Tree.list (vs.map valueTree)).render =
        some (.array (vs.map fun v => Store.valueOf (numberJson v))) := by
  apply parse?_of_written (written_list vs)
  · have hitems : Tree.itemsDepth (vs.map valueTree) ≤ 1 :=
      Tree.itemsDepth_le_iff.mpr (List.forall_mem_map.mpr fun _ _ => Nat.le_refl _)
    simp only [Tree.depth, maxDepth]
    omega
  · exact allReadable_iff.mpr (List.forall_mem_map.mpr fun _ _ => rfl)
  · exact sorted_array (List.forall_mem_map.mpr fun _ _ => sorted_valueOf rfl)

/-! ### As messages again -/

theorem ofJson?_number (v : Int64) : ScalarKind.int64.ofJson? (numberJson v) = some (.int64 v) := by
  rw [← written_number]
  exact ScalarKind.ofJson?_written rfl rfl

theorem keyed?_oneValue : (oneValue name).keyed? "value" = some valueField := by
  have hjson : jsonNameOf "value" = "value" := by decide
  simp [MessageType.keyed?, oneValue, Field.declare, valueField, hjson]

theorem keyed?_manyValues : (manyValues name).keyed? "value" = some valuesField := by
  have hjson : jsonNameOf "value" = "value" := by decide
  simp [MessageType.keyed?, manyValues, Field.declare, valuesField, hjson]

variable (c : Codec)

theorem decodeJson_valueOf (v : Int64) :
    c.decodeJson (oneValue name) (Store.valueOf (numberJson v)) = .ok (valueMessage v.toInt) := by
  have hleaf : leafOfJson c.options (.scalar .int64) (numberJson v) =
      .ok (some (.scalar (.int64 v))) := by
    rw [leafOfJson, ofJson?_number]
    rfl
  have hfield : fieldOfJson c.options c.schema valueField.shape (numberJson v) =
      .ok (some (.single (.scalar (.int64 v)))) := by
    simp only [valueField, Field.declare, Shape.one, fieldOfJson, numberJson] at hleaf ⊢
    rw [hleaf]
    rfl
  rw [Codec.decodeJson, Store.valueOf, Message.ofJson, membersOfJson, keyed?_oneValue]
  simp only [hfield, bind, Except.bind, fields_valueMessage]
  rfl

theorem itemsOfJson_numbers (vs : List Int64) :
    itemsOfJson c.options c.schema (.scalar .int64) (vs.map numberJson) =
      .ok (vs.map fun v => .scalar (.int64 v)) := by
  induction vs with
  | nil => rfl
  | cons v vs ih =>
      have hvalue : valueOfJson c.options c.schema (.scalar .int64) (numberJson v) =
          .ok (some (.scalar (.int64 v))) := by
        rw [numberJson, valueOfJson, leafOfJson, ← numberJson, ofJson?_number]
        · rfl
        · simp
      rw [List.map_cons, itemsOfJson, hvalue, ih]
      rfl

theorem decodeJson_valuesOf (vs : List Int64) :
    c.decodeJson (manyValues name) (Store.valueOf (.array (vs.map numberJson))) =
      .ok (valuesMessage vs) := by
  have hfield : fieldOfJson c.options c.schema valuesField.shape (.array (vs.map numberJson)) =
      .ok (some (.list (vs.map fun v => .scalar (.int64 v)))) := by
    simp only [valuesField, Field.declare, Shape.many, fieldOfJson, itemsOfJson_numbers]
    rfl
  rw [Codec.decodeJson, Store.valueOf, Message.ofJson, membersOfJson, keyed?_manyValues]
  simp only [hfield, bind, Except.bind]
  rfl

theorem decode_valueTree (v : Int64) :
    c.decode (oneValue name) (valueTree v).render = .ok (valueMessage v.toInt) := by
  rw [Codec.decode, (parse?_valueTree v).1]
  exact decodeJson_valueOf name c v

theorem decode_valuesTree (vs : List Int64) :
    c.decode (manyValues name) (valuesTree vs).render = .ok (valuesMessage vs) := by
  rw [Codec.decode, (parse?_valuesTree vs).1]
  exact decodeJson_valuesOf name c vs

theorem decodeMany_list (vs : List Int64) :
    c.decodeMany (oneValue name) (Tree.list (vs.map valueTree)).render =
      .ok (vs.map fun v => valueMessage v.toInt) := by
  obtain ⟨hparse, hparseSorted⟩ := parse?_list vs
  have hside (v : Int64) : Codec.clientSide (Store.valueOf (numberJson v)) =
      Store.valueOf (numberJson v) := rfl
  rw [Codec.decodeMany, if_neg (trim_ne_nil_of_parse? hparse), hparseSorted]
  simp only [List.mapM_map, Function.comp_def, hside, decodeJson_valueOf]
  exact List.mapM_pure

end GrpcContract.Sample
