import GrpcContract.Proofs.DoubleReading
import GrpcContract.Proofs.SingleReading
import GrpcContract.Proofs.TreeText

/-!
# Texts of floating-point numbers

The text of a leaf that is a finite floating-point number is read as a number of 64 bits. So what
the text of a leaf is read as is always readable.
-/

namespace GrpcContract.Leaf

open Json Number

theorem written_eq_number {l : Leaf} {literal : Literal} {y : Binary64}
    (hprint : StandsFor l.print (ofLiteral literal)) (hinteger : literal.isInteger = false)
    (hread : literal.scale? = some y) : l.written = .number (.float y) := by
  have hvalue : ofLiteral literal = .number (.float y) := by
    simp [ofLiteral, Number.ofLiteral?, hinteger, hread]
  rw [written, hprint.parse?, limitDepth_ofLiteral, Option.getD_some, hvalue]

theorem exists_written_float {x : Binary32} (hfinite : x.isFinite = true) :
    ∃ literal y, Layout.json32.Writes .single x.isNegative x.magnitude literal ∧
      ReadsSingle literal x y ∧ (scalar (.float x)).written = .number (.float y) := by
  obtain ⟨literal, hwrites⟩ := exists_writes (l := Layout.json32) (f := .single) rfl (by decide)
    (by decide) x.isNegative x.magnitude
  obtain ⟨y, hreads⟩ := exists_readsSingle hfinite hwrites.negative hwrites.spells
  have hprint : (scalar (.float x)).print = (Layout.json32.write32 x).toList := by
    rw [print, if_pos hfinite]
  exact ⟨literal, y, hwrites, hreads,
    written_eq_number (hprint ▸ hwrites.standsFor_write32) hwrites.isInteger hreads.read⟩

theorem exists_written_double {x : Binary64} (hfinite : x.isFinite = true) :
    ∃ literal y, Layout.json64.Writes .double x.isNegative x.magnitude literal ∧
      ReadsDouble literal x y ∧ (scalar (.double x)).written = .number (.float y) := by
  obtain ⟨literal, hwrites⟩ := exists_writes (l := Layout.json64) (f := .double) rfl (by decide)
    (by decide) x.isNegative x.magnitude
  obtain ⟨y, hreads⟩ := exists_readsDouble hfinite hwrites.negative hwrites.spells
  have hprint : (scalar (.double x)).print = (Layout.json64.write64 x).toList := by
    simp only [print, toJson, hfinite, ↓reduceIte]
    rfl
  exact ⟨literal, y, hwrites, hreads,
    written_eq_number (hprint ▸ hwrites.standsFor_write64) hwrites.isInteger hreads.read⟩

theorem isReadable_toJson (l : Leaf) : l.toJson.isReadable = true := by
  cases l with
  | symbol number name => rfl
  | scalar x =>
      cases x with
      | float x | double x =>
          simp only [toJson]
          split <;> rfl
      | _ => rfl

theorem isReadable_written (l : Leaf) : l.written.isReadable = true := by
  by_cases hfinite : l.isFiniteFloat = true
  · cases l with
    | symbol number name => exact absurd hfinite (by simp [isFiniteFloat])
    | scalar x =>
        cases x with
        | float x =>
            obtain ⟨literal, y, -, -, hwritten⟩ := exists_written_float (x := x) hfinite
            rw [hwritten]
            rfl
        | double x =>
            obtain ⟨literal, y, -, -, hwritten⟩ := exists_written_double (x := x) hfinite
            rw [hwritten]
            rfl
        | _ => exact absurd hfinite (by simp [isFiniteFloat])
  · rw [written_eq_toJson (by simpa using hfinite)]
    exact l.isReadable_toJson

end GrpcContract.Leaf
