import GrpcContract.Bridge
import GrpcContract.Client.Gather

/-!
What a client makes of a reply. A status in the head decides at once, unless it is OK; otherwise
the body is read as frames up to its trailers, whose status decides. Where no status comes, the
HTTP status stands for one.
-/

namespace GrpcContract

/-- A part of the body of a reply. -/
inductive ReplyPart
  | data (bytes : List UInt8)
  | trailers (h : Headers)
  | error (text : String)
deriving DecidableEq, Inhabited

/-- The response of an endpoint to a call. -/
structure Reply where
  status : Nat := 200
  headers : Headers := .empty
  body : List ReplyPart := []
deriving DecidableEq, Inhabited

namespace Headers

/-- The code of a `grpc-status` value as a client reads it: only the plain numbers of codes. -/
def plainCode (value : List UInt8) : Code :=
  match (List.range 17).find? fun n => headerValue (toString n) == value with
  | some n => .ofInt n
  | none => .unknown

/-- The status in the headers as a client reads it. A message that is no text makes the status
unknown. -/
def clientStatus? (h : Headers) : Option Status := do
  let code := plainCode (← h.get? HeaderName.grpcStatus)
  match h.get? HeaderName.grpcMessage with
  | none => return ⟨code, none⟩
  | some value =>
    match Text.Percent.decodeBytes? value with
    | some message => return (⟨code, some message⟩ : Status).withoutEmptyMessage
    | none =>
      return .because .unknown "Error deserializing status message header: the bytes are no UTF-8"

end Headers

def FrameError.clientStatus : FrameError → Status
  | .compressed => .because .internal
      "protocol error: a message is compressed, but no encoding was named"
  | .invalidFlags flags => .because .internal
      s!"protocol error: the compression flag of a message is {flags.toNat}"
  | .tooLarge size limit => .because .outOfRange
      ("Error, decoded message length too large: found " ++ toString size ++
        " bytes, the limit is: " ++ toString limit ++ " bytes")
  | .incomplete _ => .because .internal "Unexpected EOF decoding stream."

namespace Reply

def messageLimit : Nat := 4194304

/-- How an encoding that is not spoken is named: as a text, or by its bytes where it is none. -/
def encodingName (value : List UInt8) : String :=
  match Text.Utf8.decode? value with
  | some cs => String.ofList cs
  | none => "[" ++ ", ".intercalate (value.map fun b => toString b.toNat) ++ "]"

def headFailure? (r : Reply) : Option Status :=
  let encoding? := (r.headers.get? HeaderName.grpcEncoding).filter
    (· != headerValue identityEncoding)
  match encoding? with
  | some encoding => some (.because .unimplemented
      ("Content is compressed with `" ++ encodingName encoding ++ "` which isn't supported"))
  | none => r.headers.clientStatus?.filter (!·.isOk)

/-- The failure that stands for an HTTP status where a reply carries no status of its own. -/
def missingStatus (status : Nat) : Status :=
  if status = 200 then .because .unknown "protocol error: the response carries no status"
  else .because (.ofHttp status)
    ("grpc-status header missing, mapped from HTTP status code " ++ toString status)

/-- The failure that the end of a reply tells, by its trailers if there are any. -/
def endFailure? (r : Reply) (trailers? : Option Headers) : Option Status :=
  if r.headers.contains HeaderName.grpcStatus then none
  else
    match trailers?.bind Headers.clientStatus? with
    | some s => if s.isOk then none else some s
    | none => some (missingStatus r.status)

/-- Whether bytes are left that began a frame. A header whose message has not begun is not
counted. -/
def isCutOff (d : Deframer) : Bool :=
  !d.buffer.isEmpty && d.buffer.length != Frame.headerLength

def readMessage (s : Schema) (t : MessageType) (payload : List UInt8) : Except Status Message :=
  match Message.read? s t payload with
  | some m => .ok m
  | none => .error (.because .internal
      ("failed to decode response: the bytes are no message of type " ++ t.name))

/-- The end of a stream, which may be a failure. -/
def streamEnd (failure? : Option Status) : List (Except Status Message) :=
  failure?.toList.map .error

def streamFrom (s : Schema) (t : MessageType) (r : Reply) :
    Deframer → List ReplyPart → List (Except Status Message)
  | d, [] => if isCutOff d then [.error (FrameError.incomplete 0).clientStatus]
      else streamEnd (r.endFailure? none)
  | d, .data bytes :: rest =>
    let drained := (d.push bytes).drain
    drained.1.map (readMessage s t) ++
      match drained.2 with
      | .ok d => streamFrom s t r d rest
      | .error e => [.error e.clientStatus]
  | _, .trailers h :: _ => streamEnd (r.endFailure? (some h))
  | _, .error text :: _ => [.error (.because .unknown text)]

/-- The stream of messages that a client reads, up to its end or to the failure that ends it. -/
def stream (s : Schema) (t : MessageType) (r : Reply) : List (Except Status Message) :=
  match r.headFailure? with
  | some failure => [.error failure]
  | none => r.streamFrom s t { limit? := some messageLimit } r.body

/-- The output messages of a call: all of them for a server that streams, else the first one. -/
def messages (s : Schema) (t : MessageType) (streaming : Bool) (r : Reply) :
    Except Status (List Message) :=
  if streaming then Gather.all (r.stream s t)
  else
    match Gather.first (r.stream s t) with
    | .error e => .error e
    | .ok (some m) => .ok [m]
    | .ok none => .error (.because .internal "Missing response message.")

/-- The part of a reply that a part of a response is to its client. -/
def partOf : BodyPart → ReplyPart
  | .data bytes => .data bytes
  | .trailers h => .trailers h
  | .error s => .error s.describe

def ofServed (served : Served) : Reply :=
  ⟨served.head.status, served.head.headers, served.body.map partOf⟩

end Reply

end GrpcContract
