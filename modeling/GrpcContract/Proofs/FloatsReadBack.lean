import GrpcContract.Proofs.EchoedBodies
import GrpcContract.Proofs.LeafTexts

/-!
# 32-bit numbers in text

A finite 32-bit number is written with the digits that tell it from other 32-bit numbers, and read
as a 64-bit number that has to be within the range of 32 bits before it is rounded. The rounding
gives every number back, but the greatest number is read as one beyond it, and refused.
-/

namespace GrpcContract

open Number BinaryFormat

/-- The text of a 32-bit number in a field of such numbers gives the number back, but for the
greatest number. -/
theorem leafOfJson_written_float (o : CodecOptions) {x : Binary32} (hfinite : x.isFinite = true) :
    leafOfJson o (.scalar .float) (Leaf.scalar (.float x)).written =
      if x.magnitude = single.infinity - 1 then .error (.expected "a number")
      else .ok (some (.scalar (.float x))) := by
  obtain ⟨literal, y, -, hreads, hwritten⟩ := Leaf.exists_written_float hfinite
  rw [hwritten, leafOfJson, ScalarKind.ofJson?, Json.toFloat?, hreads.toBinary32]
  by_cases hgreatest : x.magnitude = single.infinity - 1
  · rw [if_neg (mt hreads.range.mp (not_not_intro hgreatest)), if_pos hgreatest]
    rfl
  · rw [if_pos (hreads.range.mpr hgreatest), if_neg hgreatest]
    rfl

namespace Codec

variable {t : MessageType} {f : Field} {key : String} {presence : Presence}
  {default? : Option Scalar} {x : Binary32}

theorem decode_float (c : Codec) (hkey : t.keyed? key = some f)
    (hshape : f.shape = .single (.scalar .float) presence default?) (hfinite : x.isFinite = true) :
    c.decode t (Tree.message [(key, .leaf (.scalar (.float x)))]).render =
      if x.magnitude = single.infinity - 1 then .error (.invalidMessage t (.expected "a number"))
      else .ok (Message.empty.set t f (.single (.scalar (.float x)))) := by
  obtain ⟨literal, y, -, -, hwritten⟩ := Leaf.exists_written_float hfinite
  have hparse := Tree.parse?_render (t := .message [(key, .leaf (.scalar (.float x)))])
    (show 1 ≤ Json.maxDepth by decide)
  have hleaf := leafOfJson_written_float c.options hfinite
  have hfree : Message.empty.groupTaken t f = false := by
    simp [Message.groupTaken, Message.has, Message.get?, Message.empty, Message.fields]
  simp only [Tree.written, Tree.fieldsWritten, hwritten] at hparse hleaf
  rw [decode, hparse]
  simp only [decodeJson, Message.ofJson, membersOfJson, hkey, fieldOfJson, hshape, hleaf]
  by_cases hgreatest : x.magnitude = single.infinity - 1
  · rw [if_pos hgreatest, if_pos hgreatest]
    rfl
  · rw [if_neg hgreatest, if_neg hgreatest]
    simp only [Except.map, Option.map_some, Message.give, hfree]
    rfl

/-- Every finite 32-bit number is written as a number that rounds to it. Read as a value of a field
of such numbers (a single one, an item of a list or the value of an entry), that gives the number
back bit by bit, the zeros and the smallest numbers included; so does decoding a text with the
number in a field. Only the greatest number of either sign is refused. -/
theorem decode_render_float (c : Codec) (hkey : t.keyed? key = some f)
    (hshape : f.shape = .single (.scalar .float) presence default?) (hfinite : x.isFinite = true) :
    (∃ y, Json.parse? (Tree.leaf (.scalar (.float x))).render = some (.number (.float y)) ∧
      y.toBinary32 = x ∧
      valueOfJson c.options c.schema (.scalar .float) (.number (.float y)) =
        if x.magnitude = single.infinity - 1 then .error (.expected "a number")
        else .ok (some (.scalar (.float x)))) ∧
    c.decode t (Tree.message [(key, .leaf (.scalar (.float x)))]).render =
      if x.magnitude = single.infinity - 1 then .error (.invalidMessage t (.expected "a number"))
      else .ok (Message.empty.set t f (.single (.scalar (.float x)))) := by
  obtain ⟨literal, y, -, hreads, hwritten⟩ := Leaf.exists_written_float hfinite
  have hleaf := leafOfJson_written_float c.options hfinite
  rw [hwritten] at hleaf
  refine ⟨⟨y, ?_, hreads.toBinary32, ?_⟩, c.decode_float hkey hshape hfinite⟩
  · rw [Tree.parse?_render (Nat.zero_le _), Tree.written, hwritten]
  · rw [valueOfJson, hleaf]
    exact nofun

end Codec

namespace Sample

def fFloat : Field := .declare "f_float" 2 (.one (.scalar .float))

/-- The smallest number is read back, under a minus sign. -/
theorem decode_render_smallest :
    let t := Kitchen.scalars "oracle.v1"
    let x : Binary32 := ⟨0x80000001⟩
    t.keyed? "f_float" = some fFloat ∧ x.isFinite = true ∧
      pantry.decode t (Tree.message [("f_float", .leaf (.scalar (.float x)))]).render =
        .ok (Message.empty.set t fFloat (.single (.scalar (.float x)))) := by
  have hkey : (Kitchen.scalars "oracle.v1").keyed? "f_float" = some fFloat := by decide +kernel
  have hfinite : (⟨0x80000001⟩ : Binary32).isFinite = true := by decide
  refine ⟨hkey, hfinite, ?_⟩
  rw [(pantry.decode_render_float hkey rfl hfinite).2, if_neg (by decide)]

/-- The greatest number is not read back. -/
theorem not_decode_greatest_float :
    let t := Kitchen.scalars "oracle.v1"
    let x : Binary32 := ⟨0x7F7FFFFF⟩
    x.isFinite = true ∧ t.keyed? "f_float" = some fFloat ∧
      pantry.decode t (Tree.message [("f_float", .leaf (.scalar (.float x)))]).render =
        .error (.invalidMessage t (.expected "a number")) := by
  have hkey : (Kitchen.scalars "oracle.v1").keyed? "f_float" = some fFloat := by decide +kernel
  have hfinite : (⟨0x7F7FFFFF⟩ : Binary32).isFinite = true := by decide
  refine ⟨hfinite, hkey, ?_⟩
  rw [pantry.decode_float hkey rfl hfinite, if_pos (by decide)]

end Sample

end GrpcContract
