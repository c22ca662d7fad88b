import GrpcContract.Call.Pipe
import GrpcContract.Call.Session
import GrpcContract.Rpc.Config
import GrpcContract.Rpc.Timeout

/-!
The bridge from calls to a stub matcher. A request that is no call of a known method is refused at
once, with a response of headers alone; any other is run as a session under its time limit.
-/

namespace GrpcContract

/-- A step of a request body on its way to the bridge: an event, time that passes before what
comes after it, or nothing ever again. -/
inductive BodyStep
  | event (e : BodyEvent)
  | wait (nanos : Nat)
  | silence
deriving Inhabited

/-- What a matcher does with a request: it answers after some time, it never answers, or the task
that asks it dies. -/
inductive MatcherReply
  | answer (nanos : Nat) (answer : Except String StubResponse)
  | silence
  | crash (nanos : Nat)
deriving Inhabited

abbrev TimedMatcher := StubRequest → MatcherReply

def Matcher.timed (f : Matcher) : TimedMatcher := fun request => .answer 0 (f request)

structure HttpRequest where
  verb : String := "POST"
  path : String
  headers : Headers
  body : List BodyStep := []
deriving Inhabited

/-- A session on a clock: its time so far, and what can be told of it. -/
structure TimedSession where
  session : Session
  limit? : Option Nat
  now : Nat := 0
  /-- The requests that the matcher was asked, in their order. -/
  asked : List StubRequest := []
  /-- How many steps of the body were begun. -/
  begun : Nat := 0
  /-- Whether the session waits for what never comes. -/
  stuck : Bool := false
deriving Inhabited

namespace TimedSession

/-- The session waits for something that comes after some time; without a wait there is none for
the time limit to cut short. -/
def waitFor (t : TimedSession) (nanos : Nat) (then_ : Session → Session) : TimedSession :=
  if nanos = 0 then { t with session := then_ t.session }
  else
    match t.limit? with
    | some limit =>
      if limit ≤ t.now + nanos then { t with now := max t.now limit, session := t.session.onDeadline }
      else { t with now := t.now + nanos, session := then_ t.session }
    | none => { t with now := t.now + nanos, session := then_ t.session }

def waitForever (t : TimedSession) : TimedSession :=
  match t.limit? with
  | some limit => { t with now := max t.now limit, session := t.session.onDeadline }
  | none => { t with stuck := true }

/-- Asks the matcher, if the session waits for it. -/
def consult (f : TimedMatcher) (t : TimedSession) : TimedSession :=
  match t.session.stage with
  | .asking request =>
    let t := { t with asked := t.asked ++ [request] }
    match f request with
    | .answer nanos answer => t.waitFor nanos (·.onAnswer answer)
    | .crash nanos => t.waitFor nanos (·.onCrash)
    | .silence => t.waitForever
  | _ => t

def isReading (t : TimedSession) : Bool :=
  t.session.stage = .reading && !t.stuck

def run (f : TimedMatcher) : TimedSession → List BodyStep → TimedSession
  | t, [] =>
    if t.isReading then consult f { t with session := t.session.onBody .finish } else t
  | t, step :: rest =>
    if !t.isReading then t
    else
      let t := { t with begun := t.begun + 1 }
      match step with
      | .event e => run f (consult f { t with session := t.session.onBody e }) rest
      | .wait nanos => run f (t.waitFor nanos id) rest
      | .silence => run f t.waitForever rest

end TimedSession

structure Bridge where
  schema : Schema
  registry : Registry
  config : BridgeConfig := {}
deriving Inhabited

/-- What became of a request: the head and body of its response, and what the matcher was asked. -/
structure Served where
  head : ResponseHead
  body : List BodyPart := []
  asked : List StubRequest := []
  begun : Nat := 0
  /-- Whether there is no response: the call waits for what never comes, and `head` and `body` are
  never sent. -/
  stuck : Bool := false
deriving Inhabited

namespace Bridge

def codec (b : Bridge) : Codec := ⟨b.schema, b.config.codec⟩

/-- The bridge as a record of the number of its methods and its settings. -/
def describe (b : Bridge) : String :=
  "StubBridge \x7b methods: " ++ toString b.registry.size ++ ", config: " ++ b.config.describe ++
    " \x7d"

/-- The method that a request calls, or the head of the response that refuses it. -/
def dispatch (b : Bridge) (r : HttpRequest) : Except ResponseHead Method := do
  if r.verb ≠ "POST" then
    throw (.ofStatus (.because .unimplemented s!"HTTP method {r.verb} is not supported"))
  if !r.headers.announcesGrpc then
    throw { ResponseHead.ofStatus (.because .internal "Content type is not application/grpc") with
      status := 415 }
  match r.headers.get? HeaderName.grpcEncoding with
  | some encoding =>
    if encoding ≠ headerValue identityEncoding then
      throw (.ofStatus (.because .unimplemented
        ("Message compression " ++ Text.quoteBytes encoding ++ " is not supported")))
  | none => pure ()
  match b.registry.resolve r.path with
  | .ok m => return m
  | .error _ => throw (.ofStatus (.because .unimplemented "Method not found"))

def session (b : Bridge) (m : Method) : Session :=
  .start b.codec m b.config.receiveMaxBytes

def limit? (b : Bridge) (h : Headers) : Option Nat :=
  Timeout.shorter? b.config.serverTimeout (Timeout.ofHeaders? h)

def respond (b : Bridge) (outlet : Outlet) : ResponseHead × List BodyPart :=
  let p := { Pipe.start b.config.outputBuffer with outlet, queueOpen := false }
  (p.settle.head?.getD (.ofStatus (.because .internal "call ended without a response")), p.body)

/-- Answers a request, for a client that reads the response to its end. A call whose body or matcher
is silent for ever, with no time limit to end it, gets no response: it is `stuck`, and its head and
body are those of a queue that was closed with nothing in it, for want of others. -/
def serve (b : Bridge) (f : TimedMatcher) (r : HttpRequest) : Served :=
  match b.dispatch r with
  | .error head => { head }
  | .ok m =>
    let t := TimedSession.run f { session := b.session m, limit? := b.limit? r.headers } r.body
    let (head, body) := b.respond t.session.outlet
    { head, body, asked := t.asked, begun := t.begun, stuck := t.stuck }

end Bridge

end GrpcContract
