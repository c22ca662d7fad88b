import GrpcContract.Proofs.EchoedBodies
import GrpcContract.Proofs.TidyReading

/-!
# One message as a sequence

A body with an object means the same message whether one message is asked for or a sequence. A
sequence is read by way of a value whose objects are ordered by key, so this takes a tidy body.
-/

namespace GrpcContract

open Json

/-! ### Blank texts -/

theorem Text.isBlank_of_trim_eq_nil {cs : List Char} (hblank : trim cs = []) :
    ∀ c ∈ cs, isBlank c = true := by
  induction cs with
  | nil => simp
  | cons c cs ih =>
      cases hc : isBlank c with
      | false => exact absurd hblank (trim_cons_ne_nil cs hc)
      | true =>
          rw [trim, List.dropWhile_cons_of_pos hc] at hblank
          exact List.forall_mem_cons.mpr ⟨hc, ih hblank⟩

theorem Json.readValue_of_isBlank {fuel : Nat} {cs : List Char}
    (hblank : ∀ c ∈ cs, Text.isBlank c = true) : readValue fuel cs = none := by
  cases fuel with
  | zero => rfl
  | succ fuel =>
      have hstart (c : Char) (hc : Text.isBlank c = true) : c.isDigit = false ∧
          c ∉ ['n', 't', 'f', '"', '-', '[', '\x7b'] := by
        refine ⟨?_, fun hmem => ?_⟩
        · by_contra hdigit
          simp [Char.isDigit, Text.isBlank, UInt32.le_iff_toNat_le] at hdigit hc
          omega
        · simp only [List.mem_cons, List.not_mem_nil, or_false] at hmem
          rcases hmem with rfl | rfl | rfl | rfl | rfl | rfl | rfl <;> exact absurd hc (by decide)
      have hrest : ∀ c ∈ skipSpace cs, Text.isBlank c = true :=
        fun c hmem => hblank c ((List.dropWhile_suffix _).subset hmem)
      rw [readValue]
      cases hskip : skipSpace cs with
      | nil => rfl
      | cons c cs =>
          obtain ⟨hdigit, hother⟩ := hstart c (hrest c (by simp [hskip]))
          simp only [List.mem_cons, List.not_mem_nil, or_false, not_or] at hother
          split
          · rename_i heq
            exact absurd (List.cons.inj heq).1 hother.2.2.2.2.2.1
          · rename_i heq
            exact absurd (List.cons.inj heq).1 hother.2.2.2.2.2.2
          · exact readAtom_cons_eq_none cs hdigit (by simp [hother])

/-- A blank text is no JSON. -/
theorem Json.trim_ne_nil_of_parse? {text : String} {j : Json} (hparse : Json.parse? text = some j) :
    Text.trim text.toList ≠ [] := by
  intro hblank
  rw [Json.parse?, readValue_of_isBlank (Text.isBlank_of_trim_eq_nil hblank)] at hparse
  cases hparse

/-! ### Bodies with an object -/

section Codec

variable {c : Codec} {t : MessageType} {text : String} {j : Json}

theorem Codec.decode_of_parse? (hparse : Json.parse? text = some j) :
    c.decode t text = c.decodeJson t j := by
  rw [decode, hparse]

theorem Codec.agrees_decodeJson_sorted (hsound : c.schema.Sound t)
    (htidy : j.isTidy c.options c.schema t = true) :
    Except.Agrees Message.Alike (c.decodeJson t j) (c.decodeJson t j.sorted) := by
  have hagrees := Message.agrees_ofJson_sorted hsound htidy
  unfold decodeJson
  generalize Message.ofJson c.options c.schema t j = x at hagrees
  generalize Message.ofJson c.options c.schema t j.sorted = y at hagrees
  cases hagrees with
  | ok halike => exact .ok halike
  | error e e' => exact .error _ _

/-- A strict reader makes of a tidy body that is no array one message, or nothing, in either way. -/
theorem Codec.agrees_decode_decodeMany (hsound : c.schema.Sound t)
    (hstrict : c.options.ignoreUnknown = false) (hparse : Json.parse? text = some j)
    (harray : ∀ items, j ≠ .array items) (htidy : j.isTidy c.options c.schema t = true) :
    Except.Agrees (fun m ms => ∃ m', ms = [m'] ∧ m.Alike m') (c.decode t text)
      (c.decodeMany t text) := by
  have hagrees := agrees_decodeJson_sorted hsound htidy
  rw [decode_of_parse? hparse, decodeMany, if_neg (trim_ne_nil_of_parse? hparse), parseSorted?,
    hparse, Option.filter_some]
  cases hreadable : j.isReadable with
  | false =>
      cases hread : c.decodeJson t j with
      | error failure => exact .error _ _
      | ok m =>
          have hseen := Message.isReadable_of_ofJson (by simp [hstrict])
            (Except.ok_of_mapError hread)
          simp [hreadable] at hseen
  | true =>
      simp only [↓reduceIte, Option.map_some]
      cases j with
      | array items => exact absurd rfl (harray items)
      | object members =>
          simp only [sorted] at hagrees ⊢
          generalize c.decodeJson t (.object members) = x at hagrees ⊢
          generalize c.decodeJson t (.object (sortMembers (sortedMembers members))) = y at hagrees ⊢
          cases hagrees with
          | ok halike => exact .ok ⟨_, rfl, halike⟩
          | error e e' => exact .error _ _
      | _ => exact .error _ _

/-- A strict reader gives one message for a tidy body that is no array exactly where it gives a
sequence of one message for it, and this is the same message up to the order of map entries. -/
theorem Codec.decodeMany_single_iff (c : Codec) (t : MessageType) (text : String) (j : Json)
    (hsound : c.schema.Sound t) (hstrict : c.options.ignoreUnknown = false)
    (hparse : Json.parse? text = some j) (harray : ∀ items, j ≠ .array items)
    (htidy : j.isTidy c.options c.schema t = true) :
    (∀ m, c.decode t text = .ok m → ∃ m', c.decodeMany t text = .ok [m'] ∧ m.Alike m') ∧
    (∀ m', c.decodeMany t text = .ok [m'] → ∃ m, c.decode t text = .ok m ∧ m.Alike m') := by
  have hagrees := agrees_decode_decodeMany hsound hstrict hparse harray htidy
  constructor
  · intro m hone
    obtain ⟨ms, hmany, m', rfl, halike⟩ := hagrees.exists_ok_right hone
    exact ⟨m', hmany, halike⟩
  · intro m' hmany
    obtain ⟨m, hone, m'', heq, halike⟩ := hagrees.exists_ok_left hmany
    obtain rfl := List.singleton_inj.mp heq
    exact ⟨m, hone, halike⟩

end Codec

namespace Sample

/-- A link whose members do not come in the order of their keys. -/
def looseText : String :=
  "\x7b\"size\":7,\"marks\":\x7b\"b\":true,\"a\":false\x7d\x7d"

theorem decodeMany_single_iff_looseText :
    ∃ m', links.decodeMany link looseText = .ok [m'] ∧
      (Message.mk [(1, .single (.scalar (.int32 7))),
        (4, .map [(.string "b", .scalar (.bool true)), (.string "a", .scalar (.bool false))])]
        []).Alike m' := by
  have hparse : Json.parse? looseText = some (.object [("size", .number (.int 7)),
      ("marks", .object [("b", .bool true), ("a", .bool false)])]) := by
    cbv
  refine (Codec.decodeMany_single_iff links link looseText _ sound_link rfl hparse (by simp)
    (by decide +kernel)).1 _ ?_
  rw [Codec.decode_of_parse? hparse]
  rfl

end Sample

end GrpcContract
