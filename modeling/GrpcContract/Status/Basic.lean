import GrpcContract.Status.Code

/-!
The status a call ends with: a code and an optional message.
-/

namespace GrpcContract

structure Status where
  code : Code
  message? : Option String := none
deriving DecidableEq, Inhabited

namespace Status

def ok : Status := ⟨.ok, none⟩

def because (code : Code) (message : String) : Status := ⟨code, some message⟩

def isOk (s : Status) : Bool := s.code == .ok

/-- The name of the code, and the message after a colon. -/
def describe (s : Status) : String :=
  match s.message? with
  | some message => s.code.name ++ ": " ++ message
  | none => s.code.name

/-- The status in which an empty message counts as none. -/
def withoutEmptyMessage (s : Status) : Status :=
  { s with message? := s.message?.filter (!·.isEmpty) }

end Status

end GrpcContract
