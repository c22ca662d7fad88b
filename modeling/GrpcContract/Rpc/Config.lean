import GrpcContract.Message.OfJson

/-!
The settings of a bridge.
-/

namespace GrpcContract

structure BridgeConfig where
  codec : CodecOptions := {}
  /-- The greatest size of a message that is accepted, if there is one. -/
  receiveMaxBytes : Option Nat := some 4194304
  /-- How many parts of a response may wait for the client. -/
  outputBuffer : Nat := 16
  /-- The server's own time limit in nanoseconds. -/
  serverTimeout : Option Nat := none
deriving DecidableEq, Inhabited

namespace BridgeConfig

def withIgnoreUnknown (c : BridgeConfig) (ignore : Bool) : BridgeConfig :=
  { c with codec := { c.codec with ignoreUnknown := ignore } }

/-- At least one part can always wait. -/
def withOutputBuffer (c : BridgeConfig) (size : Nat) : BridgeConfig :=
  { c with outputBuffer := max size 1 }

/-- A duration in the largest unit it fills, with a fraction where it is not whole. -/
def describeDuration (nanos : Nat) : String :=
  let (unit, digits, name) :=
    if 1000000000 ≤ nanos then (1000000000, 9, "s")
    else if 1000000 ≤ nanos then (1000000, 6, "ms")
    else if 1000 ≤ nanos then (1000, 3, "µs")
    else (1, 0, "ns")
  let rest := Nat.toDigits 10 (nanos % unit)
  let padded := List.replicate (digits - rest.length) '0' ++ rest
  let fraction := (padded.reverse.dropWhile (· == '0')).reverse
  toString (nanos / unit) ++ (if fraction.isEmpty then "" else "." ++ String.ofList fraction) ++ name

def describeOption (describe : α → String) : Option α → String
  | some a => "Some(" ++ describe a ++ ")"
  | none => "None"

def describe (c : BridgeConfig) : String :=
  "BridgeConfig \x7b codec: CodecOptions \x7b ignore_unknown_fields: " ++
    (if c.codec.ignoreUnknown then "true" else "false") ++
    " \x7d, receive_max_bytes: " ++ describeOption toString c.receiveMaxBytes ++
    ", output_buffer: " ++ toString c.outputBuffer ++
    ", server_timeout: " ++ describeOption describeDuration c.serverTimeout ++ " \x7d"

end BridgeConfig

end GrpcContract
