import GrpcContract.Call.Pipe

/-!
# What a sink enqueues

The operations that a call enqueues for its client are headers and one frame for each message, or
nothing where it sends no message, and then what ends the response, all at once. The first event
that ends it decides; whatever comes after has no effect. The state of the response tells which of
these parts have been enqueued.
-/

namespace GrpcContract

inductive SinkCall
  | send (m : Message)
  | close (s : Status)
  | cancel (s : Status)
  | abort (s : Status)

/-- What happens to a sink: its call uses it, or the writer finds that the client is gone. -/
inductive SinkEvent
  | call (c : SinkCall)
  | clientGone

namespace Outlet

variable (s : Schema) (t : MessageType)

def call (o : Outlet) : SinkCall → Outlet
  | .send m => o.give s t (.message m)
  | .close status => o.give s t (.close status)
  | .cancel status => o.cancel status
  | .abort status => o.abort status

def onEvent (o : Outlet) : SinkEvent → Outlet
  | .call c => o.call s t c
  | .clientGone => { o with state := o.state.advance .cancelled }

def onEvents (o : Outlet) (events : List SinkEvent) : Outlet :=
  events.foldl (onEvent s t) o

end Outlet

theorem Outlet.onEvents_cons (s : Schema) (t : MessageType) (o : Outlet) (e : SinkEvent)
    (events : List SinkEvent) :
    o.onEvents s t (e :: events) = (o.onEvent s t e).onEvents s t events := rfl

/-- A writer that stops because its client is gone does to the sink what that event does. -/
theorem Pipe.outlet_stop_lost (s : Schema) (t : MessageType) (p : Pipe) :
    (p.stop true).outlet = p.outlet.onEvent s t .clientGone := by
  simp [stop, Outlet.onEvent, StreamState.advance]

namespace SinkEvent

/-- The messages that are sent before anything ends the response. -/
def sent : List SinkEvent → List Message
  | .call (.send m) :: rest => m :: sent rest
  | _ => []

/-- The first event that ends the response. -/
def end? : List SinkEvent → Option SinkEvent
  | .call (.send _) :: rest => end? rest
  | e :: _ => some e
  | [] => none

/-- The operations that end the response. -/
def endOps : SinkEvent → List OutputOp
  | .call (.close s) | .call (.cancel s) => [.trailers s.headers, .complete]
  | .call (.abort s) => [.reset s]
  | .call (.send _) | .clientGone => []

def endState : SinkEvent → StreamState
  | .call (.close _) => .completed
  | _ => .cancelled

theorem end?_cons_of_ne {e : SinkEvent} (hend : ∀ m, e ≠ .call (.send m))
    (events : List SinkEvent) : end? (e :: events) = some e ∧ sent (e :: events) = [] := by
  cases e with
  | clientGone => exact ⟨rfl, rfl⟩
  | call c =>
      cases c with
      | send m => exact absurd rfl (hend m)
      | _ => exact ⟨rfl, rfl⟩

theorem isTerminal_endState (e : SinkEvent) : e.endState.isTerminal = true := by
  unfold endState
  split <;> rfl

end SinkEvent

namespace Outlet

/-- The operations for some frames; headers come before the first. -/
def opened : List (List UInt8) → List OutputOp
  | [] => []
  | frame :: frames => .headers initialHeaders :: (frame :: frames).map .frame

/-- The state of a response that has not ended. -/
def openState : List (List UInt8) → StreamState
  | [] => .notStarted
  | _ :: _ => .streaming

theorem opened_append_singleton (frames : List (List UInt8)) (frame : List UInt8) :
    opened (frames ++ [frame]) =
      opened frames ++ (if frames = [] then [.headers initialHeaders] else []) ++
        [.frame frame] := by
  cases frames <;> simp [opened]

theorem send_opened (frames : List (List UInt8)) (frame : List UInt8) :
    send ⟨openState frames, opened frames⟩ frame =
      ⟨openState (frames ++ [frame]), opened (frames ++ [frame])⟩ := by
  rw [opened_append_singleton]
  cases frames <;>
    simp [send, openState, advancePushing, push, StreamState.canAdvance, StreamState.isTerminal,
      StreamState.rank]

variable (s : Schema) (t : MessageType)

theorem onEvent_opened (frames : List (List UInt8)) {e : SinkEvent}
    (hend : ∀ m, e ≠ .call (.send m)) :
    onEvent s t ⟨openState frames, opened frames⟩ e =
      ⟨e.endState, opened frames ++ e.endOps⟩ := by
  cases e with
  | clientGone =>
      cases frames <;>
        simp [onEvent, SinkEvent.endState, SinkEvent.endOps, openState, StreamState.advance,
          StreamState.canAdvance, StreamState.isTerminal, StreamState.rank]
  | call c =>
      cases c with
      | send m => exact absurd rfl (hend m)
      | _ =>
          cases frames <;>
            simp [onEvent, call, give, close, cancel, abort, SinkEvent.endState,
              SinkEvent.endOps, openState, advancePushing, push, StreamState.canAdvance,
              StreamState.isTerminal, StreamState.rank]

variable {s t}

theorem canAdvance_of_isTerminal {state : StreamState} (hterminal : state.isTerminal = true)
    (next : StreamState) : state.canAdvance next = false := by
  simp [StreamState.canAdvance, hterminal]

theorem onEvent_of_isTerminal {o : Outlet} (hterminal : o.state.isTerminal = true)
    (e : SinkEvent) : o.onEvent s t e = o := by
  have hstay := canAdvance_of_isTerminal hterminal
  cases e with
  | clientGone => simp [onEvent, StreamState.advance, hstay]
  | call c =>
      cases c <;>
        simp [onEvent, call, give, send, close, cancel, abort, advancePushing, hterminal, hstay]

theorem onEvents_of_isTerminal {o : Outlet} (hterminal : o.state.isTerminal = true)
    (events : List SinkEvent) : o.onEvents s t events = o := by
  induction events with
  | nil => rfl
  | cons e events ih =>
      rw [onEvents_cons, onEvent_of_isTerminal hterminal]
      exact ih

theorem rank_le_advance (state next : StreamState) : state.rank ≤ (state.advance next).rank := by
  unfold StreamState.advance
  split
  · rename_i hadvance
    simp only [StreamState.canAdvance, Bool.and_eq_true, decide_eq_true_eq] at hadvance
    exact Nat.le_of_lt hadvance.2
  · exact Nat.le_refl _

theorem state_advancePushing (o : Outlet) (next : StreamState) (ops : List OutputOp) :
    (o.advancePushing next ops).state = o.state.advance next := by
  unfold advancePushing StreamState.advance
  split <;> rfl

theorem rank_le_onEvent (o : Outlet) (e : SinkEvent) :
    o.state.rank ≤ (o.onEvent s t e).state.rank := by
  cases e with
  | clientGone => exact rank_le_advance _ _
  | call c =>
      cases c with
      | send m =>
          simp only [onEvent, call, give, send]
          split
          · exact Nat.le_refl _
          · rw [state_advancePushing, push, state_advancePushing]
            exact Nat.le_trans (rank_le_advance _ _) (rank_le_advance _ _)
      | _ =>
          simp only [onEvent, call, give, close, cancel, abort, state_advancePushing]
          exact rank_le_advance _ _

theorem rank_le_onEvents (o : Outlet) (events : List SinkEvent) :
    o.state.rank ≤ (o.onEvents s t events).state.rank := by
  induction events generalizing o with
  | nil => exact Nat.le_refl _
  | cons e events ih => exact Nat.le_trans (rank_le_onEvent o e) (ih (o.onEvent s t e))

variable (s t)

/-- Events on top of the frames that were sent before them. -/
theorem onEvents_opened (frames : List (List UInt8)) (events : List SinkEvent) :
    let frames' := frames ++ (SinkEvent.sent events).map fun m => Frame.encode (m.write s t)
    onEvents s t ⟨openState frames, opened frames⟩ events =
      ⟨(SinkEvent.end? events).elim (openState frames') SinkEvent.endState,
        opened frames' ++ (SinkEvent.end? events).elim [] SinkEvent.endOps⟩ := by
  induction events generalizing frames with
  | nil => simp [onEvents, SinkEvent.end?, SinkEvent.sent]
  | cons e events ih =>
      by_cases hsend : ∃ m, e = .call (.send m)
      · obtain ⟨m, rfl⟩ := hsend
        have hstep : onEvent s t ⟨openState frames, opened frames⟩ (.call (.send m)) =
            ⟨openState (frames ++ [Frame.encode (m.write s t)]),
              opened (frames ++ [Frame.encode (m.write s t)])⟩ := send_opened frames _
        rw [onEvents_cons, hstep, ih]
        simp [SinkEvent.end?, SinkEvent.sent]
      · have hend : ∀ m, e ≠ .call (.send m) := fun m heq => hsend ⟨m, heq⟩
        obtain ⟨hfirst, hsent⟩ := SinkEvent.end?_cons_of_ne hend events
        rw [onEvents_cons, onEvent_opened s t frames hend,
          onEvents_of_isTerminal e.isTerminal_endState, hfirst, hsent]
        simp

/-- The operations that a fresh sink enqueues are the headers and the frames of the messages that
are sent before the first event that ends the response, headers only before the first frame, and
then the operations of that event. The state of the response tells what ended it, or whether a
message was sent; it never moves back, and once the response has ended nothing changes. -/
theorem onEvents_fresh (events : List SinkEvent) :
    let o := onEvents s t {} events
    let frames := (SinkEvent.sent events).map fun m => Frame.encode (m.write s t)
    o.queue = opened frames ++ (SinkEvent.end? events).elim [] SinkEvent.endOps ∧
      o.state = (SinkEvent.end? events).elim (openState frames) SinkEvent.endState ∧
      (∀ later, o.state.rank ≤ (onEvents s t {} (events ++ later)).state.rank) ∧
      ((SinkEvent.end? events).isSome = true →
        ∀ later, onEvents s t {} (events ++ later) = o) := by
  intro o frames
  have ho : o = ⟨(SinkEvent.end? events).elim (openState frames) SinkEvent.endState,
      opened frames ++ (SinkEvent.end? events).elim [] SinkEvent.endOps⟩ :=
    onEvents_opened s t [] events
  have happend (later : List SinkEvent) :
      onEvents s t {} (events ++ later) = o.onEvents s t later := List.foldl_append
  refine ⟨by rw [ho], by rw [ho], ?_, ?_⟩
  · intro later
    rw [happend]
    exact rank_le_onEvents o later
  · intro hsome later
    obtain ⟨e, hend⟩ := Option.isSome_iff_exists.mp hsome
    have hterminal : o.state.isTerminal = true := by
      rw [ho, hend]
      exact e.isTerminal_endState
    rw [happend, onEvents_of_isTerminal hterminal]

end Outlet

end GrpcContract
