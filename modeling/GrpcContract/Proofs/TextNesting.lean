import GrpcContract.Proofs.FloatText
import GrpcContract.Proofs.TreeText

/-!
# Nesting of texts

How deeply arrays and objects nest in a text is told by its characters alone: by the brackets and
braces that stand outside of strings. The text of a tree nests as deeply as the tree.
-/

namespace GrpcContract

/-! ### Scanning a text -/

/-- Where in a text a scan is: outside of strings, in a string, or after a backslash in one. -/
inductive Place
  | outside
  | inside
  | escaped
deriving DecidableEq

/-- A scan of a text: how many arrays and objects are open, and how many were at most. -/
structure Scan where
  place : Place
  opened : Nat
  deepest : Nat

namespace Scan

def start : Scan := ⟨.outside, 0, 0⟩

def next (scan : Scan) (c : Char) : Scan :=
  match scan.place with
  | .escaped => { scan with place := .inside }
  | .inside =>
    if c = '"' then { scan with place := .outside }
    else if c = '\\' then { scan with place := .escaped }
    else scan
  | .outside =>
    if c = '"' then { scan with place := .inside }
    else if c = '[' ∨ c = '\x7b' then
      { scan with opened := scan.opened + 1, deepest := max scan.deepest (scan.opened + 1) }
    else if c = ']' ∨ c = '\x7d' then { scan with opened := scan.opened - 1 }
    else scan

end Scan

/-- How deeply arrays and objects nest in a text. -/
def nesting (text : String) : Nat :=
  (text.toList.foldl Scan.next .start).deepest

/-- Whether characters outside of strings open and close `n` levels of arrays and objects. -/
def Nests (cs : List Char) (n : Nat) : Prop :=
  ∀ opened deepest, opened ≤ deepest →
    cs.foldl Scan.next ⟨.outside, opened, deepest⟩ =
      ⟨.outside, opened, max deepest (opened + n)⟩

theorem Nests.nesting_eq {cs : List Char} {n : Nat} (hcs : Nests cs n) :
    nesting (String.ofList cs) = n := by
  have hscan := hcs 0 0 (Nat.le_refl 0)
  rw [nesting, String.toList_ofList, Scan.start, hscan]
  simp

/-! ### Pieces of a text -/

theorem nests_nil : Nests [] 0 := by
  intro opened deepest hle
  simp [hle]

theorem Nests.append {cs ds : List Char} {n k : Nat} (hcs : Nests cs n) (hds : Nests ds k) :
    Nests (cs ++ ds) (max n k) := by
  intro opened deepest hle
  rw [List.foldl_append, hcs opened deepest hle, hds opened _ (by omega)]
  have hmax : max (max deepest (opened + n)) (opened + k) = max deepest (opened + max n k) := by
    omega
  rw [hmax]

/-- Whether a character is no quote, bracket or brace. -/
def isPlain (c : Char) : Bool :=
  c != '"' && c != '[' && c != '\x7b' && c != ']' && c != '\x7d'

theorem nests_plain {cs : List Char} (hplain : ∀ c ∈ cs, isPlain c = true) : Nests cs 0 := by
  intro opened deepest hle
  induction cs with
  | nil => simp [hle]
  | cons c cs ih =>
      have hc := hplain c (by simp)
      simp only [isPlain, Bool.and_eq_true, bne_iff_ne] at hc
      obtain ⟨⟨⟨⟨hquote, hopen⟩, hbrace⟩, hclose⟩, hend⟩ := hc
      rw [List.foldl_cons, ← ih fun d hd => hplain d (by simp [hd])]
      simp [Scan.next, hquote, hopen, hbrace, hclose, hend]

theorem isPlain_of_isDigit {c : Char} (hdigit : c.isDigit = true) : isPlain c = true := by
  simp only [isPlain, Bool.and_eq_true, bne_iff_ne]
  refine ⟨⟨⟨⟨?_, ?_⟩, ?_⟩, ?_⟩, ?_⟩
  all_goals
    rintro rfl
    simp at hdigit

theorem Nests.enclose {cs : List Char} {n : Nat} (hcs : Nests cs n) {first last : Char}
    (hfirst : first = '[' ∨ first = '\x7b') (hlast : last = ']' ∨ last = '\x7d') :
    Nests (first :: cs ++ [last]) (n + 1) := by
  intro opened deepest hle
  have hopen : Scan.next ⟨.outside, opened, deepest⟩ first =
      ⟨.outside, opened + 1, max deepest (opened + 1)⟩ := by
    rcases hfirst with rfl | rfl <;> simp [Scan.next]
  have hclose (deepest : Nat) : Scan.next ⟨.outside, opened + 1, deepest⟩ last =
      ⟨.outside, opened, deepest⟩ := by
    rcases hlast with rfl | rfl <;> simp [Scan.next]
  have hmax : max (max deepest (opened + 1)) (opened + 1 + n) = max deepest (opened + (n + 1)) := by
    omega
  rw [List.cons_append, List.foldl_cons, hopen, List.foldl_append, hcs _ _ (by omega),
    List.foldl_cons, List.foldl_nil, hclose, hmax]

/-! ### Strings and numbers -/

theorem next_inside {c : Char} (hquote : c ≠ '"') (hslash : c ≠ '\\') (opened deepest : Nat) :
    Scan.next ⟨.inside, opened, deepest⟩ c = ⟨.inside, opened, deepest⟩ := by
  simp [Scan.next, hquote, hslash]

/-- What a character of a string is written as keeps a scan in the string. -/
theorem foldl_escape (c : Char) (opened deepest : Nat) :
    (Json.escape c).foldl Scan.next ⟨.inside, opened, deepest⟩ = ⟨.inside, opened, deepest⟩ := by
  unfold Json.escape
  split
  case h_8 hquote hslash hback htab hline hfeed hreturn =>
      split
      · rename_i hcontrol
        have hdigit {n : Nat} (hlt : n < 16) : Scan.next ⟨.inside, opened, deepest⟩
            (Json.hexDigit n) = ⟨.inside, opened, deepest⟩ := by
          have hvalue := Json.hexValue?_hexDigit hlt
          apply next_inside
          · intro heq
            simp [heq, Json.hexValue?] at hvalue
          · intro heq
            simp [heq, Json.hexValue?] at hvalue
        have hescape (cs : List Char) : ('\\' :: 'u' :: '0' :: '0' :: cs).foldl Scan.next
            ⟨.inside, opened, deepest⟩ = cs.foldl Scan.next ⟨.inside, opened, deepest⟩ := rfl
        rw [hescape, List.foldl_cons, hdigit (by omega), List.foldl_cons, hdigit (by omega),
          List.foldl_nil]
      · exact next_inside hquote hslash opened deepest
  all_goals rfl

theorem nests_quote (s : String) : Nests (Json.quote s) 0 := by
  intro opened deepest hle
  have hbody (cs : List Char) : (cs.flatMap Json.escape).foldl Scan.next
      ⟨.inside, opened, deepest⟩ = ⟨.inside, opened, deepest⟩ := by
    induction cs with
    | nil => rfl
    | cons c cs ih => rw [List.flatMap_cons, List.foldl_append, foldl_escape, ih]
  have hopen : Scan.next ⟨.outside, opened, deepest⟩ '"' = ⟨.inside, opened, deepest⟩ := rfl
  have hclose : Scan.next ⟨.inside, opened, deepest⟩ '"' = ⟨.outside, opened, deepest⟩ := rfl
  rw [Json.quote, List.cons_append, List.foldl_cons, hopen, List.foldl_append, hbody,
    List.foldl_cons, List.foldl_nil, hclose]
  simp [hle]

theorem isPlain_writePositional (l : Number.Layout) {ds : List Char}
    (hds : ∀ c ∈ ds, c.isDigit = true) (e : Int) :
    ∀ c ∈ l.writePositional ds e, isPlain c = true := by
  have hzeros (n : Nat) : ∀ c ∈ List.replicate n '0', isPlain c = true := by
    intro c hc
    rw [(List.mem_replicate.mp hc).2]
    rfl
  have hplain : ∀ c ∈ ds, isPlain c = true := fun c hc => isPlain_of_isDigit (hds c hc)
  have hwhole : ∀ c ∈ ds.take (e.toNat + 1) ++ List.replicate (e.toNat + 1 - ds.length) '0',
      isPlain c = true := by
    rw [List.forall_mem_append]
    exact ⟨fun c hc => hplain c (List.mem_of_mem_take hc), hzeros _⟩
  unfold Number.Layout.writePositional
  split
  · rw [List.cons_append, List.forall_mem_cons, List.cons_append, List.forall_mem_cons,
      List.forall_mem_append]
    exact ⟨rfl, rfl, hzeros _, hplain⟩
  · simp only
    split
    · split
      · rw [List.forall_mem_append]
        exact ⟨hwhole, List.all_eq_true.mp rfl⟩
      · exact hwhole
    · rw [List.forall_mem_append, List.forall_mem_cons]
      exact ⟨hwhole, rfl, fun c hc => hplain c (List.mem_of_mem_drop hc)⟩

theorem isPlain_writeScientific {ds : List Char} (hds : ∀ c ∈ ds, c.isDigit = true) (e : Int) :
    ∀ c ∈ Number.writeScientific ds e, isPlain c = true := by
  have hplain : ∀ c ∈ ds, isPlain c = true := fun c hc => isPlain_of_isDigit (hds c hc)
  unfold Number.writeScientific
  simp only
  rw [List.forall_mem_append, List.forall_mem_cons, List.forall_mem_cons]
  refine ⟨?_, rfl, by split <;> rfl, fun c hc => isPlain_of_isDigit (Text.isDigit_of_mem_toDigits hc)⟩
  split
  · rw [List.forall_mem_cons] at hplain ⊢
    rw [List.forall_mem_cons]
    exact ⟨hplain.1, rfl, hplain.2⟩
  · exact hplain

theorem isPlain_writeMagnitude (l : Number.Layout) (f : Number.BinaryFormat) (g : Nat) :
    ∀ c ∈ l.writeMagnitude f g, isPlain c = true := by
  have hdigits {d : Number.Decimal} : ∀ c ∈ d.parts.1, c.isDigit = true :=
    fun c hc => Number.Decimal.isDigit_of_mem_parts hc
  unfold Number.Layout.writeMagnitude
  split
  · split <;> exact List.all_eq_true.mp rfl
  · unfold Number.Layout.write
    simp only
    split
    · split
      · exact isPlain_writePositional l hdigits _
      · exact isPlain_writeScientific hdigits _
    · exact isPlain_writePositional l hdigits _

/-- A sign, if there is one, in front of a number. -/
theorem nests_signed (cs : List Char) (hplain : ∀ c ∈ cs, isPlain c = true) (negative : Bool) :
    Nests ((if negative then ['-'] else []) ++ cs) 0 := by
  apply nests_plain
  rw [List.forall_mem_append]
  refine ⟨?_, hplain⟩
  cases negative <;> exact List.all_eq_true.mp rfl

theorem nests_int (n : Int) : Nests (toString n).toList 0 := by
  rw [Text.toList_toString_int]
  have hsigned := nests_signed (Nat.toDigits 10 n.natAbs)
    (fun c hc => isPlain_of_isDigit (Text.isDigit_of_mem_toDigits hc)) (decide (n < 0))
  simpa using hsigned

theorem Leaf.nests_print (l : Leaf) : Nests l.print 0 := by
  cases l with
  | symbol number name => exact nests_quote name
  | scalar x =>
      cases x with
      | bool b => cases b <;> exact nests_plain (List.all_eq_true.mp rfl)
      | int32 n => exact nests_int _
      | int64 n => exact nests_int _
      | uint32 n => exact nests_int _
      | uint64 n => exact nests_int _
      | enum n => exact nests_int _
      | string s => exact nests_quote s
      | bytes bs => exact nests_quote _
      | float x =>
          simp only [print, toJson]
          split
          · rw [Number.Layout.write32, String.toList_ofList]
            exact nests_signed _ (isPlain_writeMagnitude _ _ _) _
          · exact nests_quote _
      | double x =>
          simp only [print, toJson]
          split
          · rw [Json.print, Json.Number.print, Number.Layout.write64, String.toList_ofList]
            exact nests_signed _ (isPlain_writeMagnitude _ _ _) _
          · exact nests_quote _

/-! ### Trees -/

theorem nests_commaSeparated_cons {part : List Char} {parts : List (List Char)} {n k : Nat}
    (hpart : Nests part n) (hparts : Nests (Json.commaSeparated parts) k) :
    Nests (Json.commaSeparated (part :: parts)) (max n k) := by
  cases parts with
  | nil =>
      have hempty := hpart.append hparts
      simpa [Json.commaSeparated] using hempty
  | cons part' parts =>
      have hcomma : Nests [','] 0 := nests_plain (List.all_eq_true.mp rfl)
      have hall := hpart.append (hcomma.append hparts)
      rw [Nat.zero_max] at hall
      exact hall

theorem nests_keyed {cs : List Char} {n : Nat} (hcs : Nests cs n) (key : String) :
    Nests (Json.quote key ++ ':' :: cs) n := by
  have hcolon : Nests [':'] 0 := nests_plain (List.all_eq_true.mp rfl)
  have hall := (nests_quote key).append (hcolon.append hcs)
  rw [Nat.zero_max, Nat.zero_max] at hall
  exact hall

namespace Tree

mutual
/-- The text of a tree nests as deeply as the tree. -/
theorem nests_print : ∀ t : Tree, Nests t.print t.depth
  | leaf l => l.nests_print
  | message fields => (nests_printFields fields).enclose (.inr rfl) (.inr rfl)
  | list items => (nests_printItems items).enclose (.inl rfl) (.inl rfl)
  | map entries => (nests_printEntries entries).enclose (.inr rfl) (.inr rfl)

theorem nests_printFields : ∀ fields : List (String × Tree),
    Nests (Json.commaSeparated (printFields fields)) (fieldsDepth fields)
  | [] => nests_nil
  | (name, t) :: rest =>
      nests_commaSeparated_cons (nests_keyed t.nests_print name) (nests_printFields rest)

theorem nests_printItems : ∀ items : List Tree,
    Nests (Json.commaSeparated (printItems items)) (itemsDepth items)
  | [] => nests_nil
  | t :: rest => nests_commaSeparated_cons t.nests_print (nests_printItems rest)

theorem nests_printEntries : ∀ entries : List (Leaf × Tree),
    Nests (Json.commaSeparated (printEntries entries)) (entriesDepth entries)
  | [] => nests_nil
  | (k, t) :: rest =>
      nests_commaSeparated_cons (nests_keyed t.nests_print k.key) (nests_printEntries rest)
end

theorem nesting_render (t : Tree) : nesting t.render = t.depth :=
  t.nests_print.nesting_eq

end Tree

end GrpcContract
