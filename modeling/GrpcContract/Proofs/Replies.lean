import GrpcContract.Client.Reply
import GrpcContract.Proofs.Frames
import GrpcContract.Proofs.Headers
import GrpcContract.Proofs.Percent

/-!
# Replies

What a client makes of the replies that a bridge gives: the status that was written into headers is
the status that is read, and the frames of a body are read as the messages they were made of.
-/

namespace GrpcContract

/-! ### Statuses -/

theorem Headers.plainCode_toNat (c : Code) : plainCode (headerValue (toString c.toNat)) = c := by
  cases c <;> decide

theorem Headers.codeOf_toNat (c : Code) : codeOf (headerValue (toString c.toNat)) = c := by
  cases c <;> decide

theorem Headers.status?_of_get? {h : Headers} {c : Code}
    (hcode : h.get? HeaderName.grpcStatus = some (headerValue (toString c.toNat))) :
    h.status? = some ⟨c, h.statusMessage?⟩ := by
  rw [status?, hcode, Option.map_some, codeOf_toNat]

theorem Status.withoutEmptyMessage_idem (s : Status) :
    s.withoutEmptyMessage.withoutEmptyMessage = s.withoutEmptyMessage := by
  obtain ⟨code, message?⟩ := s
  cases message? with
  | none => rfl
  | some message =>
      by_cases hempty : message.isEmpty = true <;>
        simp [Status.withoutEmptyMessage, Option.filter_some, hempty]

theorem Status.isOk_withoutEmptyMessage (s : Status) : s.withoutEmptyMessage.isOk = s.isOk := rfl

/-- Headers that show a status are read as that status; an empty message is none. -/
theorem Headers.clientStatus?_of_get? {h : Headers} {s : Status}
    (hcode : h.get? HeaderName.grpcStatus = some (headerValue (toString s.code.toNat)))
    (hmessage : h.get? HeaderName.grpcMessage =
      s.message?.map fun message => headerValue (Text.Percent.encode message)) :
    h.clientStatus? = some s.withoutEmptyMessage := by
  obtain ⟨code, message?⟩ := s
  simp only [clientStatus?, hcode, hmessage, bind, Option.bind, plainCode_toNat]
  cases message? with
  | none => rfl
  | some message => simp [Text.Percent.decodeBytes?_headerValue_encode]

theorem Status.clientStatus?_headers (s : Status) :
    s.headers.clientStatus? = some s.withoutEmptyMessage := by
  refine Headers.clientStatus?_of_get? (Status.get?_grpcStatus_insertStatus _ s) ?_
  rw [Status.headers, Status.get?_grpcMessage_insertStatus]
  cases s.message? <;> rfl

theorem ResponseHead.clientStatus?_ofStatus (s : Status) :
    (ResponseHead.ofStatus s).headers.clientStatus? = some s.withoutEmptyMessage := by
  refine Headers.clientStatus?_of_get? (ResponseHead.grpcStatus_ofStatus s) ?_
  rw [ResponseHead.ofStatus, ResponseHead.get?_ofHeaders, Status.headers,
    Status.get?_grpcMessage_insertStatus]
  cases s.message? <;> rfl

/-! ### Streams -/

namespace Gather

theorem all_ok {ε α : Type} (as : List α) : all (as.map (Except.ok (ε := ε))) = .ok as := by
  induction as with
  | nil => rfl
  | cons a as ih => simp [all, ih, Except.map]

end Gather

namespace Reply

variable (s : Schema) (t : MessageType)

theorem grpcEncoding_ofStatus (status : Status) :
    (ResponseHead.ofStatus status).headers.get? HeaderName.grpcEncoding = none := by
  rw [ResponseHead.ofStatus, ResponseHead.get?_ofHeaders, Status.headers,
    Status.get?_insertStatus_of_ne _ _ (by decide) (by decide)]
  rfl

/-- A reply that is nothing but a status is a stream without messages, which fails unless the
status is OK. -/
theorem stream_ofStatus (status : Status) :
    stream s t { headers := (ResponseHead.ofStatus status).headers } =
      if status.isOk then [] else [.error status.withoutEmptyMessage] := by
  have hfailure : headFailure? { headers := (ResponseHead.ofStatus status).headers } =
      if status.isOk then none else some status.withoutEmptyMessage := by
    simp only [headFailure?, grpcEncoding_ofStatus, Option.filter_none,
      ResponseHead.clientStatus?_ofStatus, Option.filter_some, Status.isOk_withoutEmptyMessage]
    by_cases hok : status.isOk = true <;> simp [hok]
  rw [stream, hfailure]
  cases hok : status.isOk with
  | false => rfl
  | true =>
      have hcontains : (ResponseHead.ofStatus status).headers.contains HeaderName.grpcStatus =
          true := by
        rw [Headers.contains, ResponseHead.grpcStatus_ofStatus]
        rfl
      simp [streamFrom, isCutOff, endFailure?, hcontains, streamEnd]

/-- The frames of a body are read one by one, up to a status of success. -/
theorem streamFrom_frames {r : Reply} {h : Headers}
    (hhead : r.headers.contains HeaderName.grpcStatus = false)
    (htrailers : h.clientStatus? = some .ok) {payloads : List (List UInt8)}
    (hsize : ∀ p ∈ payloads, Deframer.allows (some messageLimit) p.length) :
    r.streamFrom s t { limit? := some messageLimit }
        (payloads.map (fun p => .data (Frame.encode p)) ++ [.trailers h]) =
      payloads.map (readMessage s t) := by
  induction payloads with
  | nil => simp [streamFrom, endFailure?, hhead, htrailers, streamEnd, Status.isOk, Status.ok]
  | cons p payloads ih =>
      have hdrain : (Deframer.push { limit? := some messageLimit } (Frame.encode p)).drain =
          ([p], .ok { limit? := some messageLimit }) := by
        have hp : ∀ q ∈ [p], Deframer.allows (some messageLimit) q.length :=
          fun q hq => hsize q (by simp_all)
        have hone := Deframer.drain_encode hp
        rwa [List.flatMap_cons, List.flatMap_nil, List.append_nil] at hone
      rw [List.map_cons, List.cons_append, streamFrom, hdrain]
      simp only [ih fun q hq => hsize q (by simp [hq]), List.map_cons, List.map_nil,
        List.cons_append, List.nil_append]

/-- A reply with frames and a status of success after them is the stream of their messages. -/
theorem stream_delivered {payloads : List (List UInt8)}
    (hsize : ∀ p ∈ payloads, Deframer.allows (some messageLimit) p.length) :
    stream s t { headers := (ResponseHead.ofHeaders initialHeaders false).headers
                 body := payloads.map (fun p => .data (Frame.encode p)) ++
                   [.trailers Status.ok.headers] } =
      payloads.map (readMessage s t) := by
  have hfailure (body : List ReplyPart) : headFailure?
      { headers := (ResponseHead.ofHeaders initialHeaders false).headers, body } = none := rfl
  rw [stream, hfailure]
  exact streamFrom_frames s t rfl (Status.clientStatus?_headers .ok) hsize

end Reply

end GrpcContract
