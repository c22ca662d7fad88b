import GrpcContract.Contract.Verifier
import GrpcContract.Sample.Store
import GrpcContract.Switch

/-!
A sample server: the sample store behind a bridge, and beside it a page that tells that the server
is well.
-/

namespace GrpcContract.Sample

def registry : Registry := .ofMethods service.methods

def bridge : Bridge := { schema, registry }

/-- The store answers at once. An array that cannot be made ends the task that asked for it. -/
def servedStore : TimedMatcher := fun request =>
  if Store.overflows request then .crash 0 else store.timed request

def healthPath : String := "/__admin/health"

/-- The health page; it can be fetched, and its head alone as well. -/
def health (verb : String) : PlainResponse :=
  let headers := Headers.empty.insertText HeaderName.contentType "text/plain; charset=utf-8"
  if verb = "GET" then { headers, text := "ok" }
  else if verb = "HEAD" then { headers }
  else { status := 405, headers := Headers.empty.insertText "allow" "GET,HEAD" }

def pages (r : HttpRequest) : PlainResponse :=
  if r.path = healthPath then health r.verb else { status := 404 }

def server : Switch := { bridge, matcher := servedStore, other := pages }

def endpoint : Endpoint where
  call r :=
    match server.answer r with
    | .call served => .ok (.ofServed served)
    | .plain response =>
      .ok { response with body := [.data (Text.Utf8.encode response.text.toList)] }

end GrpcContract.Sample
