import GrpcContract.Codec
import GrpcContract.Rpc.Registry
import GrpcContract.Status.Headers

/-!
Requests to a stub matcher: what a call looks like over HTTP. It is always a POST to the method's
path, and its body is the text of the input message, or of the sequence of input messages.
-/

namespace GrpcContract

structure StubRequest where
  path : String
  headers : Headers
  body : String
deriving DecidableEq, Inhabited

namespace StubRequest

def verb : String := "POST"

def callHeaders : Headers :=
  (Headers.empty.insertText HeaderName.contentType grpcContentType).insertText
    HeaderName.te "trailers"

def withBody (m : Method) (body : String) : StubRequest :=
  ⟨m.path, callHeaders, body⟩

def ofMessage (c : Codec) (m : Method) (input : Message) : StubRequest :=
  withBody m (c.encode (c.schema.messageType m.input) input).render

def ofStream (c : Codec) (m : Method) (inputs : List Message) : StubRequest :=
  withBody m (c.encodeMany (c.schema.messageType m.input) inputs).render

def bodyJson? (r : StubRequest) : Option Json :=
  Json.parseSorted? r.body

end StubRequest

end GrpcContract
