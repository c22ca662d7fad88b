import GrpcContract.Call.Adapter
import GrpcContract.Call.State
import GrpcContract.Frame.Basic
import GrpcContract.Message.Wire

/-!
The sending side of a call. What a call gives to its client becomes operations on an ordered
queue. Headers go out with the first message, so a call that fails before it has output is a
response of headers alone.
-/

namespace GrpcContract

/-- A unit of output, in the order in which the client has to see it. -/
inductive OutputOp
  | headers (h : Headers)
  | frame (bytes : List UInt8)
  | trailers (h : Headers)
  | complete
  | reset (s : Status)
deriving DecidableEq, Inhabited

def initialHeaders : Headers :=
  Headers.empty.insertText HeaderName.grpcAcceptEncoding identityEncoding

/-- The state of a response, and the operations that wait for it to be written. -/
structure Outlet where
  state : StreamState := .notStarted
  queue : List OutputOp := []
deriving DecidableEq, Inhabited

namespace Outlet

def push (o : Outlet) (ops : List OutputOp) : Outlet :=
  { o with queue := o.queue ++ ops }

/-- Goes to a state, and pushes operations if that is possible. -/
def advancePushing (o : Outlet) (next : StreamState) (ops : List OutputOp) : Outlet :=
  if o.state.canAdvance next then { o.push ops with state := next } else o

/-- Sends a framed message, unless the response has ended. -/
def send (o : Outlet) (frame : List UInt8) : Outlet :=
  if o.state.isTerminal then o
  else
    ((o.advancePushing .headersSent [.headers initialHeaders]).push [.frame frame]).advancePushing
      .streaming []

def close (o : Outlet) (s : Status) : Outlet :=
  o.advancePushing .completed [.trailers s.headers, .complete]

/-- Ends the response with a status the client can read, but does not count it as completed. -/
def cancel (o : Outlet) (s : Status) : Outlet :=
  o.advancePushing .cancelled [.trailers s.headers, .complete]

def abort (o : Outlet) (s : Status) : Outlet :=
  o.advancePushing .cancelled [.reset s]

def give (s : Schema) (t : MessageType) (o : Outlet) : CallOutput → Outlet
  | .message m => o.send (Frame.encode (m.write s t))
  | .close status => o.close status

end Outlet

end GrpcContract
