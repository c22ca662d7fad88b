import GrpcContract.Schema.Declare

/-!
A sample schema of the older dialect: every single field has presence and may declare its default,
an enumeration need not start at zero, and lists are packed only where this is declared.
-/

namespace GrpcContract.Sample

namespace Legacy

def mode : EnumType := ⟨"Mode", [("SLOW", 3), ("FAST", 1)]⟩

def plain (name : String) (number : Nat) (type : FieldType) : Field :=
  .declare name number (.single type .explicit none)

def withDefault (name : String) (number : Nat) (type : FieldType) (value : Scalar) : Field :=
  .declare name number (.single type .explicit (some value))

def message : MessageType :=
  ⟨"Legacy", [
    withDefault "num" 1 (.scalar .int32) (.int32 42),
    withDefault "text" 2 (.scalar .string) (.string "hi \"there\""),
    plain "mode" 3 (.enum mode),
    withDefault "mode_set" 4 (.enum mode) (.enum 1),
    withDefault "blob" 5 (.scalar .bytes) (.bytes [1, 0x78]),
    withDefault "ratio" 6 (.scalar .float) (.float ⟨0xFF800000⟩),
    withDefault "exact" 7 (.scalar .double) (.double ⟨0x3FB999999999999A⟩),
    plain "must" 8 (.scalar .int32),
    .declare "nums" 9 (.repeated (.scalar .int32) false),
    .declare "packed_nums" 10 (.repeated (.scalar .sint32) true),
    plain "next" 11 (.message "Legacy"),
    withDefault "on" 12 (.scalar .bool) (.bool true),
    withDefault "wide" 13 (.scalar .uint64) (.uint64 18446744073709551615)]⟩

end Legacy

/-- The sample schema, which is in no package. -/
def legacy : Schema :=
  { messages := [Legacy.message]
    services := [
      .declare "Bare" [
        ("Do", false, "Legacy", false, "Legacy"),
        ("Many", true, "Legacy", true, "Legacy")]] }

end GrpcContract.Sample
