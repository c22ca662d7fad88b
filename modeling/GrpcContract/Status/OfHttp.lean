import GrpcContract.Http.Status
import GrpcContract.Status.Basic

/-!
The code that stands for an HTTP status where a reply carries none of its own.
-/

namespace GrpcContract

def Code.ofHttp : Nat → Code
  | 400 => .internal
  | 401 => .unauthenticated
  | 403 => .permissionDenied
  | 404 => .unimplemented
  | 429 | 502 | 503 | 504 => .unavailable
  | _ => .unknown

end GrpcContract
