import GrpcContract.Stub.Request
import GrpcContract.Stub.Response

/-!
Stub matchers. A matcher answers a request with a response or with the text of an error.
-/

namespace GrpcContract

abbrev Matcher := StubRequest → Except String StubResponse

namespace Matcher

def fixed (r : StubResponse) : Matcher := fun _ => .ok r

def echo : Matcher := fun request => .ok (.ok request.body)

def failing (text : String) : Matcher := fun _ => .error text

end Matcher

/-- What a matcher's answer means for a call. An error is a failure of unknown kind. -/
def StubResponse.outcome (c : Codec) (m : Method) :
    Except String StubResponse → Except Status (List Message)
  | .ok r => r.outputs c (c.schema.messageType m.output) m.shape.isServerStreaming
  | .error text => .error (.because .unknown ("stub matcher failed: " ++ text))

end GrpcContract
