import GrpcContract.Call.Outlet

/-!
The receiving side of a call. A session takes the events of the request body as they come, asks
the matcher when it has the input it needs, and gives the output to its outlet. It rests only
while it waits for the body or for the matcher, and there it may be broken off.
-/

namespace GrpcContract

/-- What a request body brings next. -/
inductive BodyEvent
  | data (bytes : List UInt8)
  | trailers
  | error (text : String)
  | finish
deriving DecidableEq, Inhabited

/-- What a session waits for. -/
inductive Stage
  | reading
  | asking (request : StubRequest)
  | ended
deriving DecidableEq, Inhabited

structure Session where
  adapter : Adapter
  deframer : Deframer
  outlet : Outlet := {}
  stage : Stage := .reading
deriving Inhabited

namespace Session

/-- A session of a method, with a limit on the size of its messages. -/
def start (c : Codec) (m : Method) (limit? : Option Nat) : Session :=
  { adapter := { codec := c, method := m }, deframer := { limit? } }

def schema (s : Session) : Schema := s.adapter.codec.schema

def inputType (s : Session) : MessageType := s.schema.messageType s.adapter.method.input

def outputType (s : Session) : MessageType := s.schema.messageType s.adapter.method.output

def emit (s : Session) (outputs : List CallOutput) : Session :=
  { s with outlet := outputs.foldl (Outlet.give s.schema s.outputType) s.outlet }

/-- Goes on from what the adapter did: it asks, or it is done once its input is complete. -/
def follow (s : Session) (after : Adapter × Adapter.Effect) : Session :=
  let s := { s with adapter := after.1 }
  match after.2 with
  | .ask request => { s with stage := .asking request }
  | .emit outputs => { s.emit outputs with stage := .ended }
  | .idle => if s.adapter.completed then { s with stage := .ended } else s

@[simp] theorem deframer_follow (s : Session) (after : Adapter × Adapter.Effect) :
    (s.follow after).deframer = s.deframer := by
  unfold follow
  split <;> simp [emit]
  split <;> rfl

/-- Refuses malformed input. The client can read the status, but the call is not completed. -/
def reject (s : Session) (status : Status) : Session :=
  let s := { s with outlet := s.outlet.cancel status }
  s.follow (s.adapter.fail status)

def undecodable : Status :=
  .because .internal "failed to decode request: the bytes are no message of the input type"

/-- Takes complete frames off the buffer until the matcher is asked or none is left. -/
def drain (s : Session) : Session :=
  match h : s.deframer.next with
  | .error e => s.reject e.toStatus
  | .ok (none, _) => s
  | .ok (some payload, rest) =>
    match Message.read? s.schema s.inputType payload with
    | none => { s with deframer := rest }.reject undecodable
    | some m =>
      let next := { s with deframer := rest }.follow (s.adapter.onMessage m)
      if next.stage = .reading then next.drain else next
termination_by s.deframer.buffer.length
decreasing_by
  rw [deframer_follow]
  exact Deframer.length_next h

def finishInput (s : Session) : Session :=
  match s.deframer.finish with
  | .error e => s.reject e.toStatus
  | .ok () => s.follow s.adapter.onInputComplete

def onBody (s : Session) (e : BodyEvent) : Session :=
  match s.stage with
  | .reading =>
    match e with
    | .data bytes => { s with deframer := s.deframer.push bytes }.drain
    | .trailers => s
    | .error text =>
      { s with
        outlet := s.outlet.abort (.because .cancelled ("request body failed: " ++ text))
        stage := .ended }
    | .finish => s.finishInput
  | _ => s

def onAnswer (s : Session) (answer : Except String StubResponse) : Session :=
  match s.stage with
  | .asking _ => { s.emit (s.adapter.answered answer) with stage := .ended }
  | _ => s

def onDeadline (s : Session) : Session :=
  match s.stage with
  | .ended => s
  | _ =>
    { s with
      outlet := s.outlet.abort (.because .deadlineExceeded "Deadline exceeded")
      stage := .ended }

/-- The session stops where it is, without a word to its client. -/
def onCrash (s : Session) : Session :=
  { s with stage := .ended }

/-- The matcher answers at once, if it is asked. -/
def answerWith (f : Matcher) (s : Session) : Session :=
  match s.stage with
  | .asking request => s.onAnswer (f request)
  | _ => s

/-- A whole request body, with a matcher that answers at once. -/
def run (f : Matcher) (s : Session) (events : List BodyEvent) : Session :=
  events.foldl (fun s e => (s.onBody e).answerWith f) s

end Session

end GrpcContract
