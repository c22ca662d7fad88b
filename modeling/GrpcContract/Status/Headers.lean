import GrpcContract.Http.Headers
import GrpcContract.Status.Basic
import GrpcContract.Text.Percent

/-!
How a call shows in headers: its content type, and its status as a number with a percent-encoded
message.
-/

namespace GrpcContract

namespace HeaderName

def contentType : String := "content-type"
def grpcStatus : String := "grpc-status"
def grpcMessage : String := "grpc-message"
def grpcEncoding : String := "grpc-encoding"
def grpcAcceptEncoding : String := "grpc-accept-encoding"
def grpcTimeout : String := "grpc-timeout"
def te : String := "te"

end HeaderName

def grpcContentType : String := "application/grpc"

def identityEncoding : String := "identity"

/-- Whether a content type is the one of calls, alone or before a plus or a semicolon. -/
def isGrpcContentType (value : String) : Bool :=
  value.toList.take grpcContentType.length == grpcContentType.toList &&
    match value.toList.drop grpcContentType.length with
    | [] => true
    | c :: _ => c == '+' || c == ';'

namespace Headers

def announcesGrpc (h : Headers) : Bool :=
  (h.text? HeaderName.contentType).any isGrpcContentType

/-- The code of a `grpc-status` value; what is no number means an unknown status. -/
def codeOf (value : List UInt8) : Code :=
  (((headerText? value).bind Code.readNumber?).map Code.ofInt).getD .unknown

/-- The message of the first `grpc-message` value, unless it is empty. -/
def statusMessage? (h : Headers) : Option String :=
  ((h.text? HeaderName.grpcMessage).map Text.Percent.decode).filter (!·.isEmpty)

def status? (h : Headers) : Option Status :=
  (h.get? HeaderName.grpcStatus).map fun value => ⟨codeOf value, h.statusMessage?⟩

/-- The headers with a status; a message they carry stays if the status has none. -/
def insertStatus (h : Headers) (s : Status) : Headers :=
  let h := h.insertText HeaderName.grpcStatus (toString s.code.toNat)
  match s.message? with
  | some message => h.insertText HeaderName.grpcMessage (Text.Percent.encode message)
  | none => h

end Headers

def Status.headers (s : Status) : Headers :=
  Headers.empty.insertStatus s

end GrpcContract
