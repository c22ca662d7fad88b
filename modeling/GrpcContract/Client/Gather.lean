/-!
Gathering a stream of items, each of which may be an error. The first error is the result of the
whole stream, and nothing after it is taken.
-/

namespace GrpcContract.Gather

/-- All items of the stream, in their order. -/
def all : List (Except ε α) → Except ε (List α)
  | [] => .ok []
  | .error e :: _ => .error e
  | .ok a :: rest => (all rest).map (a :: ·)

/-- The first item of the stream; the others are taken as well, since they may be errors. -/
def first (items : List (Except ε α)) : Except ε (Option α) :=
  (all items).map List.head?

/-- How many items are taken from the stream. -/
def taken : List (Except ε α) → Nat
  | [] => 0
  | .error _ :: _ => 1
  | .ok _ :: rest => taken rest + 1

end GrpcContract.Gather
