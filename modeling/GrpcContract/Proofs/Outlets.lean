import GrpcContract.Call.Outlet

/-!
# Outlets of ended calls

What has been enqueued for a call that has ended, in each of the ways in which it can end.
-/

namespace GrpcContract.Outlet

/-- The call ended with a status and no output. -/
def failed (s : Status) : Outlet :=
  ⟨.completed, [.trailers s.headers, .complete]⟩

/-- The input was refused with a status. -/
def refused (s : Status) : Outlet :=
  ⟨.cancelled, [.trailers s.headers, .complete]⟩

/-- The call was broken off with a status. -/
def broken (s : Status) : Outlet :=
  ⟨.cancelled, [.reset s]⟩

/-- The call ended well after one or more frames. -/
def delivered (frame : List UInt8) (frames : List (List UInt8)) : Outlet :=
  ⟨.completed, .headers initialHeaders :: (frame :: frames).map .frame ++
    [.trailers Status.ok.headers, .complete]⟩

/-- The call ended with an outcome, its output messages of some type. -/
def ofOutcome (s : Schema) (t : MessageType) : Except Status (List Message) → Outlet
  | .error status => failed status
  | .ok [] => failed .ok
  | .ok (m :: ms) =>
    delivered (Frame.encode (m.write s t)) (ms.map fun m => Frame.encode (m.write s t))

theorem send_streaming (queue : List OutputOp) (frame : List UInt8) :
    send ⟨.streaming, queue⟩ frame = ⟨.streaming, queue ++ [.frame frame]⟩ := by
  simp [send, advancePushing, StreamState.canAdvance, StreamState.isTerminal, StreamState.rank,
    push]

theorem send_notStarted (frame : List UInt8) :
    send {} frame = ⟨.streaming, [.headers initialHeaders, .frame frame]⟩ := rfl

theorem close_streaming (queue : List OutputOp) (s : Status) :
    close ⟨.streaming, queue⟩ s = ⟨.completed, queue ++ [.trailers s.headers, .complete]⟩ := rfl

/-- More messages follow in their order, and the end of the call after them. -/
theorem foldl_give_streaming (s : Schema) (t : MessageType) (queue : List OutputOp)
    (ms : List Message) :
    (ms.map CallOutput.message ++ [CallOutput.close .ok]).foldl (give s t)
        ⟨.streaming, queue⟩ =
      ⟨.completed, queue ++ (ms.map fun m => OutputOp.frame (Frame.encode (m.write s t))) ++
        [OutputOp.trailers Status.ok.headers, OutputOp.complete]⟩ := by
  induction ms generalizing queue with
  | nil => simp [give, close_streaming]
  | cons m ms ih =>
      have hrest := ih (queue ++ [.frame (Frame.encode (m.write s t))])
      simp only [List.map_cons, List.cons_append, List.foldl_cons, give, send_streaming]
      rw [hrest]
      simp

theorem foldl_give_ofOutcome (s : Schema) (t : MessageType)
    (outcome : Except Status (List Message)) :
    (CallOutput.ofOutcome outcome).foldl (give s t) {} = ofOutcome s t outcome := by
  cases outcome with
  | error status => rfl
  | ok ms =>
      cases ms with
      | nil => rfl
      | cons m ms =>
          have hrest := foldl_give_streaming s t
            [.headers initialHeaders, .frame (Frame.encode (m.write s t))] ms
          simp only [CallOutput.ofOutcome, List.map_cons, List.cons_append, List.foldl_cons, give,
            send_notStarted]
          rw [hrest]
          simp [ofOutcome, delivered, Function.comp_def]

end GrpcContract.Outlet
