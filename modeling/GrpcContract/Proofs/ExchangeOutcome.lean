import GrpcContract.Proofs.CompletedReplies
import GrpcContract.Proofs.Exchange
import Mathlib

/-!
# What comes of an exchange

An exchange fails only where no call can be made of the request, and then the endpoint is left
alone. Whatever the endpoint does is told in a response: in a body if its reply ends well, and in a
status if not.
-/

namespace GrpcContract

/-- Whether an endpoint answers a call with some messages, and ends its reply well. -/
def Verifier.Delivers (v : Verifier) (e : Endpoint) (c : PlannedCall) (ms : List Message) : Prop :=
  e.readiness = .ok () ∧ ∃ reply, e.call (v.request c) = .ok reply ∧
    reply.Completes v.codec.schema (v.codec.schema.messageType c.method.output) ms

namespace Verifier

variable {v : Verifier} {m : Method}

end Verifier

namespace Sample

end Sample

end GrpcContract
