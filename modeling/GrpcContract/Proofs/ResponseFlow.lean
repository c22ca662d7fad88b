import GrpcContract.Proofs.Relay

/-!
# What a response still delivers

While the client of a response stays, the operations that are queued, those that the call still
leads to and the part that the writer is at are together what the client has yet to receive.
-/

namespace GrpcContract

/-- How a response ends. -/
inductive Finale
  | status (s : Status)
  | failure (s : Status)
  | missing

namespace Finale

/-- The operations that the writer finds at the end of the queue. -/
def ops : Finale → List OutputOp
  | .status s => [.trailers s.headers, .complete]
  | .failure s => [.reset s]
  | .missing => []

/-- The operation that the writer ends the response with. -/
def op : Finale → OutputOp
  | .status s => .trailers s.headers
  | .failure s => .reset s
  | .missing => .reset Pipe.noStatus

def after : Finale → List OutputOp
  | .status _ => [.complete]
  | _ => []

def cause : Finale → Status
  | .status s | .failure s => s
  | .missing => Pipe.noStatus

def part : Finale → BodyPart
  | .status s => .trailers s.headers
  | .failure s => .error s
  | .missing => .error Pipe.noStatus

/-- How a response ends whose client stays. -/
def ofCalls : List SinkCall → Finale
  | .send _ :: calls => ofCalls calls
  | .close s :: _ | .cancel s :: _ => .status s
  | .abort s :: _ => .failure s
  | [] => .missing

theorem ops_eq_cons {f : Finale} {op : OutputOp} {ops : List OutputOp} (hops : f.ops = op :: ops) :
    op = f.op ∧ ops = f.after := by
  cases f with
  | missing => cases hops
  | _ =>
      cases hops
      exact ⟨rfl, rfl⟩

theorem ops_eq_nil {f : Finale} (hops : f.ops = []) : f = .missing := by
  cases f with
  | missing => rfl
  | _ => cases hops

end Finale

namespace Receipt

/-- What follows the head of a response of frames. -/
def body (frames : List (List UInt8)) (f : Finale) : List Receipt :=
  (frames.map BodyPart.data ++ [f.part]).map .part

/-- The whole response: a head alone where there are no frames, else a head, the frames, and what
ends them. -/
def whole : List (List UInt8) → Finale → List Receipt
  | [], f => [.head (.ofStatus f.cause)]
  | frame :: frames, f => .head (.ofHeaders initialHeaders false) :: body (frame :: frames) f

/-- What a client that stays receives of a call. -/
def ofCalls (s : Schema) (t : MessageType) (calls : List SinkCall) : List Receipt :=
  whole ((SinkEvent.sent (calls.map .call)).map fun m => Frame.encode (m.write s t))
    (.ofCalls calls)

end Receipt

/-! ### What a call still leads to -/

namespace Outlet

variable (s : Schema) (t : MessageType)

/-- The outlet with operations in front of those that are queued. -/
def after (o : Outlet) (ops : List OutputOp) : Outlet :=
  { o with queue := ops ++ o.queue }

theorem after_advancePushing (o : Outlet) (front : List OutputOp) (next : StreamState)
    (ops : List OutputOp) :
    (o.after front).advancePushing next ops = (o.advancePushing next ops).after front := by
  unfold advancePushing
  by_cases hadvance : o.state.canAdvance next = true <;> simp [after, push, hadvance]

theorem after_act (o : Outlet) (front : List OutputOp) (a : SinkAct) :
    (o.after front).act a = (o.act a).after front := by
  cases a with
  | advance next ops => exact after_advancePushing o front next ops
  | push op => simp [act, push, after]

theorem after_foldl_act (o : Outlet) (front : List OutputOp) (acts : List SinkAct) :
    acts.foldl act (o.after front) = (acts.foldl act o).after front := by
  induction acts generalizing o with
  | nil => rfl
  | cons a acts ih => rw [List.foldl_cons, after_act, ih, List.foldl_cons]

theorem after_call (o : Outlet) (front : List OutputOp) (c : SinkCall) :
    (o.after front).call s t c = (o.call s t c).after front := by
  rw [← SinkCall.foldl_acts, ← SinkCall.foldl_acts, after_foldl_act]
  rfl

theorem after_onEvents (o : Outlet) (front : List OutputOp) (calls : List SinkCall) :
    (o.after front).onEvents s t (calls.map .call) =
      (o.onEvents s t (calls.map .call)).after front := by
  induction calls generalizing o with
  | nil => rfl
  | cons c calls ih =>
      rw [List.map_cons, onEvents_cons, onEvents_cons, onEvent, onEvent, after_call, ih]

/-- Calls end a fresh response as its finale says. -/
theorem onEvents_calls (calls : List SinkCall) :
    let frames := (SinkEvent.sent (calls.map .call)).map fun m => Frame.encode (m.write s t)
    let o := onEvents s t {} (calls.map .call)
    o.queue = opened frames ++ (Finale.ofCalls calls).ops ∧
      (Finale.ofCalls calls = .missing → o.state.isTerminal = false) := by
  intro frames o
  have ho : o = ⟨(SinkEvent.end? (calls.map .call)).elim (openState frames) SinkEvent.endState,
      opened frames ++ (SinkEvent.end? (calls.map .call)).elim [] SinkEvent.endOps⟩ :=
    onEvents_opened s t [] (calls.map .call)
  have hend (calls : List SinkCall) :
      (SinkEvent.end? (calls.map .call)).elim [] SinkEvent.endOps = (Finale.ofCalls calls).ops ∧
        (Finale.ofCalls calls = .missing → SinkEvent.end? (calls.map .call) = none) := by
    induction calls with
    | nil => exact ⟨rfl, fun _ => rfl⟩
    | cons c calls ih =>
        cases c with
        | send m => exact ih
        | _ => exact ⟨rfl, by simp [Finale.ofCalls]⟩
  obtain ⟨hops, hmissing⟩ := hend calls
  refine ⟨by rw [ho, hops], ?_⟩
  intro heq
  rw [ho, hmissing heq]
  cases frames <;> rfl

end Outlet

namespace Relay

variable (s : Schema) (t : MessageType)

/-- What the response becomes where nothing interrupts its call: all that has been queued and not
been taken, and all that will be. -/
def outcome (r : Relay) : Outlet :=
  r.pending.onEvents s t (r.calls.map .call)

theorem outcome_after (r : Relay) (front rest : List OutputOp)
    (hqueue : r.pipe.outlet.queue = front ++ rest) :
    r.outcome s t =
      Outlet.after
        (outcome s t
          { r with pipe := { r.pipe with outlet := { r.pipe.outlet with queue := rest } } })
        front := by
  have hfront : r.pipe.outlet = Outlet.after { r.pipe.outlet with queue := rest } front := by
    rw [Outlet.after, ← hqueue]
  unfold outcome pending
  rw [← Outlet.after_onEvents, ← Outlet.after_foldl_act, ← hfront]

theorem outcome_sinkStep (r : Relay)
    (hpush : ∀ op acts, r.acts = .push op :: acts → r.pipe.writer.done = false) :
    (r.sinkStep s t).outcome s t = r.outcome s t := by
  by_cases hacts : r.acts = []
  · cases hcalls : r.calls with
    | nil => simp [sinkStep, outcome, pending, hacts, hcalls, Pipe.closeQueue]
    | cons c calls =>
        simp only [sinkStep, hacts, hcalls, outcome, pending, List.map_cons, List.foldl_nil,
          Outlet.onEvents_cons, Outlet.onEvent, SinkCall.foldl_acts]
  · obtain ⟨outlet, acts, hstep, hpending, -⟩ := sinkStep_acts s t r hacts hpush
    rw [hstep]
    unfold outcome
    rw [← hpending]
    rfl

/-- Where the writer is done and the call leads to no more operations, the call has none to push. -/
theorem not_push_of_outcome {r : Relay} (houtcome : (r.outcome s t).queue = []) (op : OutputOp)
    (acts : List SinkAct) : r.acts ≠ .push op :: acts := by
  intro hacts
  have hpushed := outcome_after s t
    { r with pipe := { r.pipe with outlet := r.pipe.outlet.push [op] }, acts }
    (r.pipe.outlet.queue ++ [op]) [] (by simp [Outlet.push])
  have hsame : outcome s t
      { r with pipe := { r.pipe with outlet := r.pipe.outlet.push [op] }, acts } =
        r.outcome s t := by
    simp [outcome, pending, hacts, Outlet.act]
  rw [← hsame, hpushed] at houtcome
  simp [Outlet.after] at houtcome

end Relay

/-! ### What the writer still delivers -/

/-- A writer without frames, and what its client receives of the end of the response. -/
inductive Ready (f : Finale) : Writer → Client → List Receipt → Prop
  | fresh : Ready f {} .waiting (Receipt.whole [] f)
  | writing : Ready f { hasHead := false, hasBody := true } .reading (Receipt.body [] f)

theorem Ready.done_eq_false {f : Finale} {w : Writer} {c : Client} {rest : List Receipt}
    (hready : Ready f w c rest) : w.done = false := by
  cases hready <;> rfl

/-- Where a writer can be whose client stays, with the operations that it will still find and what
it will put out of them. -/
inductive Flow (f : Finale) : Writer → WriterStage → Client → List OutputOp → List Receipt → Prop
  | fresh (frames : List (List UInt8)) :
    Flow f {} .looping .waiting (Outlet.opened frames ++ f.ops) (Receipt.whole frames f)
  | opening (frame : List UInt8) (frames : List (List UInt8)) :
    Flow f {} (.applying (.headers initialHeaders)) .waiting
      ((frame :: frames).map .frame ++ f.ops) (Receipt.whole (frame :: frames) f)
  | writing (frames : List (List UInt8)) :
    Flow f { hasHead := false, hasBody := true } .looping .reading (frames.map .frame ++ f.ops)
      (Receipt.body frames f)
  | framing (frame : List UInt8) (frames : List (List UInt8)) :
    Flow f { hasHead := false, hasBody := true } (.applying (.frame frame)) .reading
      (frames.map .frame ++ f.ops) (Receipt.body (frame :: frames) f)
  | holding (frame : List UInt8) (frames : List (List UInt8)) :
    Flow f { hasHead := false, hasBody := true, held? := some (.data frame) } .looping .reading
      (frames.map .frame ++ f.ops) (Receipt.body (frame :: frames) f)
  | drained {w : Writer} {c : Client} {rest : List Receipt} (hmissing : f = .missing)
    (hready : Ready f w c rest) : Flow f w .drained c [] rest
  | ending {w : Writer} {c : Client} {rest : List Receipt} (hready : Ready f w c rest) :
    Flow f w (.applying f.op) c f.after rest
  | holdingEnd :
    Flow f { hasHead := false, held? := some f.part } .looping .reading f.after [.part f.part]
  | ended {c : Client} (hclient : c = .reading ∨ c = .finished) :
    Flow f { hasHead := false } .looping c [.complete] []
  | completing {c : Client} (hclient : c = .reading ∨ c = .finished) :
    Flow f { hasHead := false } (.applying .complete) c [] []
  | leaving {c : Client} (hclient : c = .reading ∨ c = .finished) :
    Flow f { hasHead := false } .leaving c [] []
  | stopped {c : Client} (hclient : c = .reading ∨ c = .finished) :
    Flow f { hasHead := false, done := true } .looping c [] []

namespace Flow

variable {f : Finale} {w : Writer} {stage : WriterStage} {c : Client} {ops : List OutputOp}
  {rest : List Receipt}

theorem client_ne_gone (hflow : Flow f w stage c ops rest) : c ≠ .gone := by
  cases hflow with
  | drained _ hready | ending hready => cases hready <;> simp
  | ended hclient | completing hclient | leaving hclient | stopped hclient =>
      rcases hclient with rfl | rfl <;> simp
  | _ => simp

theorem stage_ne (hflow : Flow f w stage c ops rest) : stage ≠ .lost ∧ stage ≠ .signalling := by
  cases hflow <;> simp

theorem rest_of_finished (hflow : Flow f w stage .finished ops rest) : rest = [] := by
  cases hflow with
  | drained _ hready | ending hready => cases hready
  | _ => rfl

theorem of_done (hflow : Flow f w stage c ops rest) (hdone : w.done = true) :
    w = { hasHead := false, done := true } ∧ ops = [] ∧ (c = .reading ∨ c = .finished) := by
  cases hflow with
  | drained _ hready | ending hready => cases hready <;> cases hdone
  | stopped hclient => exact ⟨rfl, rfl, hclient⟩
  | _ => cases hdone

/-- A client that reads to the end of the body has received all. -/
theorem finish (hflow : Flow f w stage .reading ops rest) (hbody : w.hasBody = false)
    (hheld : w.held? = none) : rest = [] ∧ Flow f w stage .finished ops [] := by
  cases hflow with
  | drained _ hready | ending hready =>
      cases hready
      cases hbody
  | writing | framing => cases hbody
  | holding | holdingEnd => cases hheld
  | ended => exact ⟨rfl, .ended (.inr rfl)⟩
  | completing => exact ⟨rfl, .completing (.inr rfl)⟩
  | leaving => exact ⟨rfl, .leaving (.inr rfl)⟩
  | stopped => exact ⟨rfl, .stopped (.inr rfl)⟩

theorem pop {op : OutputOp} (hflow : Flow f w .looping c (op :: ops) rest)
    (hheld : w.held? = none) (hdone : w.done = false) : Flow f w (.applying op) c ops rest := by
  generalize hqueue : op :: ops = queue at hflow
  cases hflow with
  | fresh frames =>
      cases frames with
      | nil =>
          obtain ⟨rfl, rfl⟩ := Finale.ops_eq_cons hqueue.symm
          exact .ending .fresh
      | cons frame frames =>
          cases hqueue
          exact .opening frame frames
  | writing frames =>
      cases frames with
      | nil =>
          obtain ⟨rfl, rfl⟩ := Finale.ops_eq_cons hqueue.symm
          exact .ending .writing
      | cons frame frames =>
          cases hqueue
          exact .framing frame frames
  | holding frame frames => cases hheld
  | holdingEnd => cases hheld
  | ended hclient =>
      cases hqueue
      exact .completing hclient
  | stopped hclient => cases hdone

theorem drain (hflow : Flow f w .looping c [] rest) (hheld : w.held? = none)
    (hdone : w.done = false) : f = .missing ∧ Flow f w .drained c [] rest := by
  generalize hqueue : [] = queue at hflow
  cases hflow with
  | fresh frames =>
      cases frames with
      | nil =>
          have hmissing := Finale.ops_eq_nil hqueue.symm
          exact ⟨hmissing, hqueue ▸ .drained hmissing .fresh⟩
      | cons frame frames => cases hqueue
  | writing frames =>
      cases frames with
      | nil =>
          have hmissing := Finale.ops_eq_nil hqueue.symm
          exact ⟨hmissing, hqueue ▸ .drained hmissing .writing⟩
      | cons frame frames => cases hqueue
  | holding frame frames => cases hheld
  | holdingEnd => cases hheld
  | ended hclient => cases hqueue
  | stopped hclient => cases hdone

end Flow

/-! ### How much is left to do -/

namespace Relay

@[simp]
def stageWork : WriterStage → Nat
  | .looping => 6
  | .applying (.reset _) => 4
  | .applying _ => 10
  | .drained => 5
  | .leaving => 3
  | _ => 2

@[simp]
def clientWork : Client → Nat
  | .waiting => 8
  | .reading => 1
  | _ => 0

/-- The work of the writer and of the client, apart from the operations and the parts that wait. -/
def writerWork (w : Writer) (stage : WriterStage) (c : Client) : Nat :=
  (if w.done then 0 else stageWork stage) + (if w.hasBody then 6 else 0) +
    (if w.held?.isSome then 3 else 0) + clientWork c

theorem writerWork_lt_of_stage {w : Writer} (hdone : w.done = false) {next stage : WriterStage}
    (hless : stageWork next < stageWork stage) (c : Client) :
    writerWork w next c < writerWork w stage c := by
  simp only [writerWork, hdone, Bool.false_eq_true, ↓reduceIte]
  omega

theorem writerWork_applying_lt {w : Writer} (hdone : w.done = false) (op : OutputOp) (c : Client) :
    writerWork w (.applying op) c < writerWork w .looping c + 5 := by
  have hstage : stageWork (.applying op) ≤ 10 := by cases op <;> simp [stageWork]
  simp only [writerWork, hdone, Bool.false_eq_true, ↓reduceIte, stageWork] at hstage ⊢
  omega

end Relay

theorem Flow.perform {f : Finale} {p : Pipe} {op : OutputOp} {ops : List OutputOp}
    {rest : List Receipt} (hflow : Flow f p.writer (.applying op) p.client ops rest)
    (hhead : p.client = .waiting → p.head? = none) :
    ∃ writer stage client head? rest',
      p.perform op = ({ p with writer, client, head? }, stage) ∧
      (p.client = .reading → client = .reading ∧ head? = p.head?) ∧
      client ≠ .waiting ∧ stage ≠ .drained ∧
      rest = Relay.newHead p { p with writer, client, head? } ++ rest' ∧
      Flow f writer stage client ops rest' ∧
      Relay.writerWork writer stage client < Relay.writerWork p.writer (.applying op) p.client := by
  obtain ⟨outlet, queueOpen, capacity, writer, channel, client, head?, cancelled⟩ := p
  simp only at hflow hhead
  generalize hstage : WriterStage.applying op = stage at hflow
  cases hflow with
  | opening frame frames =>
      cases hstage
      obtain rfl := hhead rfl
      exact ⟨{ hasHead := false, hasBody := true }, .looping, .reading,
        some (.ofHeaders initialHeaders false), Receipt.body (frame :: frames) f, rfl, by simp,
        by simp, by simp, rfl, .writing (frame :: frames), by simp [Relay.writerWork]⟩
  | framing frame frames =>
      cases hstage
      exact ⟨{ hasHead := false, hasBody := true, held? := some (.data frame) }, .looping, .reading,
        head?, Receipt.body (frame :: frames) f, rfl, by simp, by simp, by simp,
        by simp [Relay.newHead], .holding frame frames, by simp [Relay.writerWork]⟩
  | completing hclient =>
      cases hstage
      exact ⟨{ hasHead := false }, .leaving, client, head?, [], rfl, by simp,
        by rcases hclient with rfl | rfl <;> simp, by simp, by simp [Relay.newHead],
        .leaving hclient, by simp [Relay.writerWork]⟩
  | ending hready =>
      cases hstage
      cases hready with
      | fresh =>
          obtain rfl := hhead rfl
          cases f with
          | status s =>
              exact ⟨{ hasHead := false }, .looping, .finished, some (.ofStatus s), [], rfl,
                by simp, by simp, by simp, rfl, .ended (.inr rfl),
                by simp [Relay.writerWork, Finale.op]⟩
          | failure s =>
              exact ⟨{ hasHead := false }, .leaving, .finished, some (.ofStatus s), [], rfl,
                by simp, by simp, by simp, rfl, .leaving (.inr rfl),
                by simp [Relay.writerWork, Finale.op]⟩
          | missing =>
              exact ⟨{ hasHead := false }, .leaving, .finished, some (.ofStatus Pipe.noStatus), [],
                rfl, by simp, by simp, by simp, rfl, .leaving (.inr rfl),
                by simp [Relay.writerWork, Finale.op]⟩
      | writing =>
          refine ⟨{ hasHead := false, held? := some f.part }, .looping, .reading, head?,
            [.part f.part], ?_, by simp, by simp, by simp,
            by simp [Relay.newHead, Receipt.body], .holdingEnd, ?_⟩
          · cases f <;> rfl
          · cases f <;> simp [Relay.writerWork, Finale.op]
  | _ => cases hstage

theorem Flow.letGo {f : Finale} {p : Pipe} {part : BodyPart} {ops : List OutputOp}
    {rest : List Receipt} (hflow : Flow f p.writer .looping p.client ops rest)
    (hheld : p.writer.held? = some part) :
    ∃ stage rest',
      (p.letGo true part).2 = stage ∧
      p.client = .reading ∧ stage ≠ .drained ∧ rest = .part part :: rest' ∧
      Flow f { p.writer with held? := none } stage p.client ops rest' ∧
      Relay.writerWork { p.writer with held? := none } stage p.client + 2 <
        Relay.writerWork p.writer .looping p.client := by
  obtain ⟨outlet, queueOpen, capacity, writer, channel, client, head?, cancelled⟩ := p
  simp only at hflow hheld
  cases hflow with
  | holding frame frames =>
      cases hheld
      exact ⟨.looping, Receipt.body frames f, rfl, rfl, by simp, rfl, .writing frames,
        by simp [Relay.writerWork]⟩
  | holdingEnd =>
      cases hheld
      cases f with
      | status s =>
          exact ⟨.looping, [], rfl, rfl, by simp, rfl, .ended (.inl rfl),
            by simp [Relay.writerWork]⟩
      | failure s =>
          exact ⟨.leaving, [], rfl, rfl, by simp, rfl, .leaving (.inl rfl),
            by simp [Relay.writerWork]⟩
      | missing =>
          exact ⟨.leaving, [], rfl, rfl, by simp, rfl, .leaving (.inl rfl),
            by simp [Relay.writerWork]⟩
  | _ => cases hheld

end GrpcContract
