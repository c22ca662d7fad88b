import GrpcContract.Call.Outlet

/-!
The way of a response from the queue to its client. A writer takes operations off the queue, sends
the head once, and puts the parts of the body into a channel that holds a bounded number of them;
a full channel holds the writer back. The client takes the parts out again, or goes away at any
time. Each step of the writer is a step of its own, so that a client may act between any two.
-/

namespace GrpcContract

/-- A part of a response body. -/
inductive BodyPart
  | data (bytes : List UInt8)
  | trailers (h : Headers)
  | error (s : Status)
deriving DecidableEq, Inhabited

/-- The head of a response; an ended one has no body. -/
structure ResponseHead where
  status : Nat := 200
  headers : Headers
  ended : Bool
deriving DecidableEq, Inhabited

namespace ResponseHead

def ofHeaders (h : Headers) (ended : Bool) : ResponseHead :=
  { headers := (Headers.empty.insertText HeaderName.contentType grpcContentType).override h, ended }

def ofStatus (s : Status) : ResponseHead := ofHeaders s.headers true

end ResponseHead

/-- What the client of a response does. -/
inductive Client
  | waiting
  | reading
  | finished
  | gone
deriving DecidableEq, Inhabited

/-- The task that writes a response: what of it can still be sent, and a part of the body that
waits for room. -/
structure Writer where
  hasHead : Bool := true
  hasBody : Bool := false
  held? : Option BodyPart := none
  done : Bool := false
deriving DecidableEq, Inhabited

structure Pipe where
  outlet : Outlet := {}
  /-- Whether operations may still be pushed. -/
  queueOpen : Bool := true
  capacity : Nat
  writer : Writer := {}
  channel : List BodyPart := []
  client : Client := .waiting
  head? : Option ResponseHead := none
  /-- Whether the call has been told that its client is gone. -/
  cancelled : Bool := false
deriving DecidableEq, Inhabited

namespace Pipe

def start (capacity : Nat) : Pipe := { capacity := max capacity 1 }

/-- Pushes an operation; answers whether the writer can still get it. -/
def push (p : Pipe) (op : OutputOp) : Pipe × Bool :=
  if p.writer.done then (p, false) else ({ p with outlet := p.outlet.push [op] }, true)

def closeQueue (p : Pipe) : Pipe := { p with queueOpen := false }

/-- Whether what the writer could still send would reach nobody. -/
def clientLost (p : Pipe) : Bool :=
  (p.writer.hasHead || p.writer.hasBody) && p.client == .gone

/-- The writer stops. If its client was lost before the response ended, the call is told. -/
def stop (p : Pipe) (lost : Bool) : Pipe :=
  let tell := lost && p.outlet.state.canAdvance .cancelled
  { p with
    outlet := { p.outlet with state := if tell then .cancelled else p.outlet.state }
    cancelled := p.cancelled || tell
    writer := { hasHead := false, hasBody := false, held? := none, done := true } }

/-- Gives the head to the client, if that is still possible. -/
def sendHead (p : Pipe) (head : ResponseHead) : Pipe :=
  let p := { p with writer := { p.writer with hasHead := false } }
  if p.client = .waiting then
    { p with head? := some head, client := if head.ended then .finished else .reading }
  else p

/-- Sends a head without a body, unless a head was sent. -/
def sendOnlyHead (p : Pipe) (headers : Headers) : Pipe :=
  if p.writer.hasHead then p.sendHead (.ofHeaders headers true) else p

/-- The writer holds a part of the body until there is room for it. After trailers and errors it
sends nothing more. -/
def hold (p : Pipe) (part : BodyPart) : Pipe :=
  let hasBody := match part with
    | .data _ => p.writer.hasBody
    | _ => false
  { p with writer := { p.writer with held? := some part, hasBody } }

def sendStatus (p : Pipe) (s : Status) : Pipe :=
  if p.writer.hasBody then p.hold (.error s)
  else
    let p := p.sendOnlyHead s.headers
    p.stop p.clientLost

def apply (p : Pipe) : OutputOp → Pipe
  | .headers h =>
    if p.writer.hasHead && p.client == .waiting then
      let p := p.sendHead (.ofHeaders h false)
      { p with writer := { p.writer with hasBody := true } }
    else p.stop true
  | .frame bytes => if p.writer.hasBody then p.hold (.data bytes) else p
  | .trailers h => if p.writer.hasBody then p.hold (.trailers h) else p.sendOnlyHead h
  | .complete =>
    let p := { p with writer := { p.writer with hasBody := false } }
    p.stop p.clientLost
  | .reset s => p.sendStatus s

/-- What comes after a held part is out of the writer's hands, received or not. -/
def release (p : Pipe) (received : Bool) (part : BodyPart) : Pipe :=
  let p := { p with writer := { p.writer with held? := none } }
  match part with
  | .data _ => if received then p else p.stop p.clientLost
  | .trailers _ => p
  | .error _ => p.stop p.clientLost

def noStatus : Status := .because .internal "call ended without a status"

/-- One step of the writer, or none where it has stopped or has to wait. -/
def step? (p : Pipe) : Option Pipe :=
  if p.writer.done then none
  else
    match p.writer.held? with
    | some part =>
      if p.client = .gone then some (p.release false part)
      else if p.channel.length < p.capacity then
        some ({ p with channel := p.channel ++ [part] }.release true part)
      else none
    | none =>
      match p.outlet.queue with
      | op :: rest => some ({ p with outlet := { p.outlet with queue := rest } }.apply op)
      | [] =>
        if !p.queueOpen then
          some (if p.outlet.state.isTerminal then p.stop p.clientLost else p.sendStatus noStatus)
        else if p.clientLost then some (p.stop true)
        else none

def steps : Nat → Pipe → Pipe
  | 0, p => p
  | n + 1, p =>
    match p.step? with
    | some p => steps n p
    | none => p

/-- The writer goes as far as it can. Each operation takes at most two steps, and stopping one. -/
def settle (p : Pipe) : Pipe :=
  steps (2 * p.outlet.queue.length + 3) p

/-- What a client finds when it asks for the next part of the body. -/
inductive Reading
  | noBody
  | pending
  | ended
  | part (part : BodyPart)
deriving DecidableEq, Inhabited

def channelOpen (p : Pipe) : Bool :=
  p.writer.hasBody || p.writer.held?.isSome

def read (p : Pipe) : Pipe × Reading :=
  match p.client with
  | .waiting | .gone => (p, .noBody)
  | .finished => (p, .ended)
  | .reading =>
    match p.channel with
    | part :: rest => ({ p with channel := rest }, .part part)
    | [] => if p.channelOpen then (p, .pending) else ({ p with client := .finished }, .ended)

def leave (p : Pipe) : Pipe :=
  { p with client := .gone, channel := [] }

/-- The parts that a client reads while the writer writes, at most so many. -/
def readAll : Nat → Pipe → List BodyPart
  | 0, _ => []
  | n + 1, p =>
    match p.settle.read with
    | (p, .part part) => part :: readAll n p
    | _ => []

/-- All parts that a client which keeps reading gets. Every operation gives at most one part, and
the end of the queue one more. -/
def body (p : Pipe) : List BodyPart :=
  p.readAll (p.channel.length + p.outlet.queue.length + 2)

end Pipe

end GrpcContract
