import GrpcContract.Number.Binary

/-!
Scalar values of messages, and the keys of their maps.
-/

namespace GrpcContract

open Number

/-- A value without parts. An enumeration value is its number, declared or not. -/
inductive Scalar
  | bool (b : Bool)
  | int32 (n : Int32)
  | int64 (n : Int64)
  | uint32 (n : UInt32)
  | uint64 (n : UInt64)
  | float (x : Binary32)
  | double (x : Binary64)
  | string (s : String)
  | bytes (bs : List UInt8)
  | enum (number : Int32)
deriving DecidableEq, Inhabited

namespace Scalar

/-- Equality of values: of floating-point numbers, zeros are equal and a pattern that is no number
equals nothing. -/
def same : Scalar → Scalar → Bool
  | float x, float y => x.same y
  | double x, double y => x.same y
  | s, t => s == t

def isZero : Scalar → Bool
  | bool b => !b
  | int32 n => n == 0
  | int64 n => n == 0
  | uint32 n => n == 0
  | uint64 n => n == 0
  | float x => x.magnitude == 0
  | double x => x.magnitude == 0
  | string s => s.isEmpty
  | bytes bs => bs.isEmpty
  | enum n => n == 0

end Scalar

/-- A key of a map field. -/
inductive MapKey
  | bool (b : Bool)
  | int32 (n : Int32)
  | int64 (n : Int64)
  | uint32 (n : UInt32)
  | uint64 (n : UInt64)
  | string (s : String)
deriving DecidableEq, Inhabited

def MapKey.toScalar : MapKey → Scalar
  | bool b => .bool b
  | int32 n => .int32 n
  | int64 n => .int64 n
  | uint32 n => .uint32 n
  | uint64 n => .uint64 n
  | string s => .string s

def Scalar.toMapKey? : Scalar → Option MapKey
  | bool b => some (.bool b)
  | int32 n => some (.int32 n)
  | int64 n => some (.int64 n)
  | uint32 n => some (.uint32 n)
  | uint64 n => some (.uint64 n)
  | string s => some (.string s)
  | _ => none

@[simp] theorem MapKey.toMapKey?_toScalar (k : MapKey) : k.toScalar.toMapKey? = some k := by
  cases k <;> rfl

end GrpcContract
