import GrpcContract.Proofs.SinkCalls

/-!
# Small steps of a sink and of a writer

A call, its writer and its client act on one response at the same time. Here each action of the
first two is split into steps that read or change one thing: a call reads the state of the response,
advances it and pushes each operation in steps of their own, and the writer takes an operation,
applies it, and looks at its client, at the state and at the signal one after the other. Without a
step of anyone else in between they add up to what a call does to its sink and to a step of the
pipe.
-/

namespace GrpcContract

/-- A step of a call on its sink: it may reach a state, from which operations are to be pushed, or
it pushes an operation. -/
inductive SinkAct
  | advance (next : StreamState) (ops : List OutputOp)
  | push (op : OutputOp)

/-- Where the writer is. It loops also while it waits for room and when it is done. -/
inductive WriterStage
  | looping
  | applying (op : OutputOp)
  | drained
  | leaving
  | lost
  | signalling
deriving DecidableEq

/-! ### Steps of the sink -/

/-- The steps of a call, from the state that it has read. -/
def SinkCall.acts (s : Schema) (t : MessageType) (state : StreamState) :
    SinkCall → List SinkAct
  | .send m =>
    if state.isTerminal then []
    else
      [.advance .headersSent [.headers initialHeaders], .push (.frame (Frame.encode (m.write s t))),
        .advance .streaming []]
  | .close status => [.advance .completed [.trailers status.headers, .complete]]
  | .cancel status => [.advance .cancelled [.trailers status.headers, .complete]]
  | .abort status => [.advance .cancelled [.reset status]]

/-- A step where nothing comes between it and the pushes that it leads to. -/
def Outlet.act (o : Outlet) : SinkAct → Outlet
  | .advance next ops => o.advancePushing next ops
  | .push op => o.push [op]

theorem Outlet.foldl_act_push (o : Outlet) (ops : List OutputOp) (acts : List SinkAct) :
    (ops.map SinkAct.push ++ acts).foldl act o = acts.foldl act (o.push ops) := by
  induction ops generalizing o with
  | nil => simp [push]
  | cons op ops ih =>
      have hpush : (o.push [op]).push ops = o.push (op :: ops) := by simp [push]
      rw [List.map_cons, List.cons_append, List.foldl_cons, act, ih, hpush]

theorem SinkCall.foldl_acts (s : Schema) (t : MessageType) (o : Outlet) (c : SinkCall) :
    (c.acts s t o.state).foldl Outlet.act o = o.call s t c := by
  cases c with
  | send m =>
      by_cases hterminal : o.state.isTerminal = true <;>
        simp [acts, Outlet.act, Outlet.call, Outlet.give, Outlet.send, hterminal]
  | close status => rfl
  | cancel status => rfl
  | abort status => rfl

/-! ### Steps of the writer -/

namespace Pipe

def retire (p : Pipe) : Pipe :=
  { p with writer := { hasHead := false, hasBody := false, held? := none, done := true } }

/-- Applies an operation, up to where the writer loops again or goes on to stop. -/
def perform (p : Pipe) : OutputOp → Pipe × WriterStage
  | .headers h =>
    if p.writer.hasHead && p.client == .waiting then
      let p := p.sendHead (.ofHeaders h false)
      ({ p with writer := { p.writer with hasBody := true } }, .looping)
    else (p, .lost)
  | .frame bytes => (if p.writer.hasBody then p.hold (.data bytes) else p, .looping)
  | .trailers h =>
    (if p.writer.hasBody then p.hold (.trailers h) else p.sendOnlyHead h, .looping)
  | .complete => ({ p with writer := { p.writer with hasBody := false } }, .leaving)
  | .reset s =>
    if p.writer.hasBody then (p.hold (.error s), .looping)
    else (p.sendOnlyHead s.headers, .leaving)

/-- A held part is out of the writer's hands, received or not. -/
def letGo (p : Pipe) (received : Bool) (part : BodyPart) : Pipe × WriterStage :=
  ({ p with writer := { p.writer with held? := none } },
    match part with
    | .data _ => if received then .looping else .leaving
    | .trailers _ => .looping
    | .error _ => .leaving)

/-- The next step of the writer; it stays where it is if it is done or has to wait. -/
def writerStep (p : Pipe) : WriterStage → Pipe × WriterStage
  | .looping =>
    if p.writer.done then (p, .looping)
    else
      match p.writer.held? with
      | some part =>
        if p.client = .gone then p.letGo false part
        else if p.channel.length < p.capacity then
          { p with channel := p.channel ++ [part] }.letGo true part
        else (p, .looping)
      | none =>
        match p.outlet.queue with
        | op :: rest => ({ p with outlet := { p.outlet with queue := rest } }, .applying op)
        | [] => (p, if p.queueOpen then .looping else .drained)
  | .applying op => p.perform op
  | .drained => (p, if p.outlet.state.isTerminal then .leaving else .applying (.reset noStatus))
  | .leaving => if p.clientLost then (p, .lost) else (p.retire, .looping)
  | .lost =>
    if p.outlet.state.canAdvance .cancelled then
      ({ p with outlet := { p.outlet with state := .cancelled } }, .signalling)
    else (p.retire, .looping)
  | .signalling => ({ p.retire with cancelled := true }, .looping)

theorem writerStep_done {p : Pipe} (hdone : p.writer.done = true) :
    p.writerStep .looping = (p, .looping) := by
  simp [writerStep, hdone]

theorem writerStep_held {p : Pipe} {part : BodyPart} (hdone : p.writer.done = false)
    (hheld : p.writer.held? = some part) (hclient : p.client ≠ .gone) :
    p.writerStep .looping =
      if p.channel.length < p.capacity then
        ({ p with writer := { p.writer with held? := none }, channel := p.channel ++ [part] },
          (p.letGo true part).2)
      else (p, .looping) := by
  unfold writerStep
  rw [hdone, hheld]
  simp only [Bool.false_eq_true, ↓reduceIte, hclient]
  rfl

theorem writerStep_idle {p : Pipe} (hdone : p.writer.done = false)
    (hheld : p.writer.held? = none) :
    p.writerStep .looping =
      match p.outlet.queue with
      | op :: rest => ({ p with outlet := { p.outlet with queue := rest } }, .applying op)
      | [] => (p, if p.queueOpen then .looping else .drained) := by
  unfold writerStep
  rw [hdone, hheld]
  rfl

theorem sendOnlyHead_frame (p : Pipe) (h : Headers) :
    (p.sendOnlyHead h).outlet = p.outlet ∧ (p.sendOnlyHead h).cancelled = p.cancelled ∧
      (p.client ≠ .waiting →
        (p.sendOnlyHead h).client = p.client ∧ (p.sendOnlyHead h).head? = p.head?) := by
  unfold sendOnlyHead
  split
  · simp only [sendHead]
    split <;> simp_all
  · simp

/-- Applying an operation leaves alone what the sink sees, and a client that has its head. -/
theorem perform_frame (p : Pipe) (op : OutputOp) :
    (p.perform op).1.outlet = p.outlet ∧ (p.perform op).1.cancelled = p.cancelled ∧
      (p.perform op).2 ≠ .signalling ∧
      (p.client ≠ .waiting →
        (p.perform op).1.client = p.client ∧ (p.perform op).1.head? = p.head?) := by
  cases op with
  | headers h =>
      simp only [perform]
      split
      · rename_i hwaiting
        simp_all [sendHead]
      · simp
  | frame bytes =>
      simp only [perform]
      split <;> simp [hold]
  | trailers h =>
      obtain ⟨houtlet, hcancelled, hclient⟩ := sendOnlyHead_frame p h
      simp only [perform]
      split
      · simp [hold]
      · exact ⟨houtlet, hcancelled, by simp, hclient⟩
  | complete => simp [perform]
  | reset status =>
      obtain ⟨houtlet, hcancelled, hclient⟩ := sendOnlyHead_frame p status.headers
      simp only [perform]
      split
      · simp [hold]
      · exact ⟨houtlet, hcancelled, by simp, hclient⟩

/-- The writer changes the state of the response only where it has lost its client, and the signal
only after that. -/
theorem writerStep_frame (p : Pipe) (stage : WriterStage) :
    (p.client ≠ .waiting → (p.writerStep stage).1.client = p.client ∧
        (p.writerStep stage).1.head? = p.head?) ∧
      ((p.writerStep stage).2 ≠ .signalling ∧
          (p.writerStep stage).1.outlet.state = p.outlet.state ∧
          ((p.writerStep stage).1.cancelled = p.cancelled ∨ stage = .signalling) ∨
        stage = .lost ∧ p.outlet.state.canAdvance .cancelled = true ∧
          (p.writerStep stage).1.outlet.state = .cancelled) := by
  cases stage with
  | looping =>
      simp only [writerStep]
      split
      · simp
      · split
        · split
          · rename_i part _ _
            cases part <;> simp [letGo]
          · split
            · rename_i part _ _ _
              cases part <;> simp [letGo]
            · simp
        · split
          · simp
          · split <;> simp
  | applying op =>
      obtain ⟨houtlet, hcancelled, hstage, hclient⟩ := perform_frame p op
      exact ⟨hclient, .inl ⟨hstage, congrArg Outlet.state houtlet, .inl hcancelled⟩⟩
  | drained =>
      simp only [writerStep]
      split <;> simp
  | leaving =>
      simp only [writerStep]
      split <;> simp [retire]
  | lost =>
      by_cases hadvance : p.outlet.state.canAdvance .cancelled = true <;>
        simp [writerStep, hadvance, retire]
  | signalling => simp [writerStep, retire]

theorem read_frame (p : Pipe) :
    p.read.1.outlet = p.outlet ∧ p.read.1.cancelled = p.cancelled := by
  unfold read
  split
  · simp
  · simp
  · simp
  · split
    · simp
    · split <;> simp

def canNotice (p : Pipe) : Bool :=
  !p.writer.done && p.writer.held?.isNone && p.clientLost

/-- The writer goes on until it loops again. -/
def resume (p : Pipe) : WriterStage → Pipe
  | .looping => p
  | .applying op => p.apply op
  | .drained => if p.outlet.state.isTerminal then p.stop p.clientLost else p.sendStatus noStatus
  | .leaving => p.stop p.clientLost
  | .lost => p.stop true
  | .signalling => { p.retire with cancelled := true }

theorem apply_eq_resume (p : Pipe) (op : OutputOp) :
    p.apply op = (p.perform op).1.resume (p.perform op).2 := by
  cases op with
  | headers h =>
      simp only [apply, perform]
      split <;> rfl
  | frame bytes => rfl
  | trailers h => rfl
  | complete => rfl
  | reset s =>
      simp only [apply, sendStatus, perform]
      split <;> rfl

theorem resume_writerStep (p : Pipe) {stage : WriterStage} (hstage : stage ≠ .looping) :
    (p.writerStep stage).1.resume (p.writerStep stage).2 = p.resume stage := by
  cases stage with
  | looping => exact absurd rfl hstage
  | applying op => exact (apply_eq_resume p op).symm
  | drained =>
      by_cases hterminal : p.outlet.state.isTerminal = true <;>
        simp [writerStep, resume, hterminal, apply]
  | leaving =>
      unfold writerStep resume
      by_cases hlost : p.clientLost = true <;> simp [hlost, stop, retire]
  | lost =>
      unfold writerStep resume
      by_cases hadvance : p.outlet.state.canAdvance .cancelled = true <;>
        simp [hadvance, stop, retire]
  | signalling => rfl

theorem release_eq_resume (p : Pipe) (received : Bool) (part : BodyPart) :
    p.release received part =
      (p.letGo received part).1.resume (p.letGo received part).2 := by
  cases part with
  | data bytes => cases received <;> rfl
  | trailers h => rfl
  | error s => rfl

/-- How many steps the writer is from looping again, at most. -/
def stepsLeft : WriterStage → Nat
  | .looping => 0
  | .signalling => 1
  | .lost => 2
  | .leaving => 3
  | .applying _ => 4
  | .drained => 5

theorem stepsLeft_writerStep (p : Pipe) {stage : WriterStage} (hstage : stage ≠ .looping) :
    stepsLeft (p.writerStep stage).2 < stepsLeft stage := by
  cases stage with
  | looping => exact absurd rfl hstage
  | applying op =>
      cases op with
      | headers h =>
          simp only [writerStep, perform]
          split <;> simp [stepsLeft]
      | reset s =>
          simp only [writerStep, perform]
          split <;> simp [stepsLeft]
      | _ => simp [writerStep, perform, stepsLeft]
  | signalling => simp [writerStep, stepsLeft]
  | drained =>
      simp only [writerStep]
      by_cases hterminal : p.outlet.state.isTerminal = true <;> simp [hterminal, stepsLeft]
  | _ =>
      simp only [writerStep]
      split <;> simp [stepsLeft]

def writerSteps : Nat → Pipe × WriterStage → Pipe × WriterStage
  | 0, at_ => at_
  | n + 1, at_ => writerSteps n (at_.1.writerStep at_.2)

theorem exists_writerSteps_resume (p : Pipe) (stage : WriterStage) :
    ∃ n, writerSteps n (p, stage) = (p.resume stage, .looping) := by
  -- Each step away from the loop lowers `stepsLeft` and leaves what the writer resumes to the same.
  induction hleft : stepsLeft stage using Nat.strongRecOn generalizing p stage with
  | ind left ih =>
      by_cases hloop : stage = .looping
      · exact ⟨0, by rw [hloop]; rfl⟩
      · have hless := stepsLeft_writerStep p hloop
        obtain ⟨n, hn⟩ := ih _ (hleft ▸ hless) (p.writerStep stage).1 (p.writerStep stage).2 rfl
        exact ⟨n + 1, by rw [writerSteps, hn, resume_writerStep p hloop]⟩

/-- A step of the pipe is a run of the writer's small steps, after it has noticed that its client
is gone if it has. -/
theorem exists_writerSteps_of_step? {p p' : Pipe} (hstep : p.step? = some p') :
    ∃ n stage, (stage = .looping ∨ stage = .leaving ∧ p.canNotice = true) ∧
      writerSteps n (p, stage) = (p', .looping) := by
  unfold step? at hstep
  by_cases hdone : p.writer.done = true
  · simp [hdone] at hstep
  · simp only [hdone, Bool.false_eq_true, ↓reduceIte] at hstep
    have hafter (q : Pipe) (stage : WriterStage)
        (hnext : p.writerStep .looping = (q, stage)) (hresume : q.resume stage = p') :
        ∃ n, writerSteps n (p, .looping) = (p', .looping) := by
      obtain ⟨n, hn⟩ := exists_writerSteps_resume q stage
      exact ⟨n + 1, by rw [writerSteps, hnext, hn, hresume]⟩
    cases hheld : p.writer.held? with
    | some part =>
        rw [hheld] at hstep
        by_cases hgone : p.client = .gone
        · simp only [hgone, ↓reduceIte, Option.some.injEq] at hstep
          obtain ⟨n, hn⟩ := hafter (p.letGo false part).1 (p.letGo false part).2
            (by simp [writerStep, hdone, hheld, hgone])
            ((release_eq_resume p false part).symm.trans hstep)
          exact ⟨n, .looping, .inl rfl, hn⟩
        · by_cases hroom : p.channel.length < p.capacity
          · simp only [hgone, hroom, ↓reduceIte, Option.some.injEq] at hstep
            obtain ⟨n, hn⟩ := hafter _ _
              (by simp [writerStep, hdone, hheld, hgone, hroom])
              ((release_eq_resume _ true part).symm.trans hstep)
            exact ⟨n, .looping, .inl rfl, hn⟩
          · simp [hgone, hroom] at hstep
    | none =>
        rw [hheld] at hstep
        cases hqueue : p.outlet.queue with
        | cons op rest =>
            simp only [hqueue, Option.some.injEq] at hstep
            obtain ⟨n, hn⟩ := hafter _ (.applying op)
              (by simp [writerStep, hdone, hheld, hqueue]) hstep
            exact ⟨n, .looping, .inl rfl, hn⟩
        | nil =>
            simp only [hqueue] at hstep
            by_cases hopen : p.queueOpen = true
            · by_cases hlost : p.clientLost = true
              · simp only [hopen, hlost, Bool.not_true, Bool.false_eq_true, ↓reduceIte,
                  Option.some.injEq] at hstep
                obtain ⟨n, hn⟩ := exists_writerSteps_resume p .leaving
                refine ⟨n, .leaving, .inr ⟨rfl, by simp [canNotice, hdone, hheld, hlost]⟩, ?_⟩
                rw [hn, resume, hlost, hstep]
              · simp [hopen, hlost] at hstep
            · simp only [hopen, Bool.not_false, ↓reduceIte, Option.some.injEq] at hstep
              obtain ⟨n, hn⟩ := hafter p .drained
                (by simp [writerStep, hdone, hheld, hqueue, hopen]) hstep
              exact ⟨n, .looping, .inl rfl, hn⟩

end Pipe

end GrpcContract
