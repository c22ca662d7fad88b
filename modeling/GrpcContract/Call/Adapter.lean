import GrpcContract.Stub.Matcher

/-!
The messages of one call. Where the client sends one message, the matcher is asked as soon as it
is there; where it sends a stream, the matcher is asked once, at the end of the stream. Asking
takes time, so an operation only says what is asked; the answer is turned into output separately.
-/

namespace GrpcContract

/-- What a call gives to its client. -/
inductive CallOutput
  | message (m : Message)
  | close (s : Status)
deriving Inhabited

def CallOutput.ofOutcome : Except Status (List Message) → List CallOutput
  | .ok ms => ms.map .message ++ [.close .ok]
  | .error s => [.close s]

structure Adapter where
  codec : Codec
  method : Method
  inputs : List Message := []
  /-- Whether the call needs no more input: it is closed, or the matcher was asked. -/
  completed : Bool := false
deriving Inhabited

namespace Adapter

/-- What an operation leads to. -/
inductive Effect
  | idle
  | ask (request : StubRequest)
  | emit (outputs : List CallOutput)
deriving Inhabited

def shape (a : Adapter) : CallShape := a.method.shape

def onMessage (a : Adapter) (m : Message) : Adapter × Effect :=
  if a.completed then (a, .idle)
  else if a.shape.isClientStreaming then ({ a with inputs := a.inputs ++ [m] }, .idle)
  else ({ a with completed := true }, .ask (.ofMessage a.codec a.method m))

/-- The call ends with a status, unless it has ended. -/
def fail (a : Adapter) (s : Status) : Adapter × Effect :=
  if a.completed then (a, .idle) else ({ a with completed := true }, .emit [.close s])

def onInputComplete (a : Adapter) : Adapter × Effect :=
  if a.completed then (a, .idle)
  else if a.shape.isClientStreaming then
    ({ a with inputs := [], completed := true }, .ask (.ofStream a.codec a.method a.inputs))
  else a.fail (.because .internal "Half-closed without a request")

def answered (a : Adapter) (answer : Except String StubResponse) : List CallOutput :=
  CallOutput.ofOutcome (StubResponse.outcome a.codec a.method answer)

/-- The output of an effect, where the matcher answers at once. -/
def Effect.outputs (f : Matcher) (a : Adapter) : Effect → List CallOutput
  | .idle => []
  | .ask request => a.answered (f request)
  | .emit outputs => outputs

end Adapter

end GrpcContract
