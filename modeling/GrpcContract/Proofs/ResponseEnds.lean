import GrpcContract.Proofs.Interleavings
import GrpcContract.Sample.Schema

/-!
# The state that a response is left in

A writer stops for many reasons: the operation that ends the response, an error, a client that is
gone, or a queue that has come to its end. When it has stopped the response has ended, unless its
sink was dropped without ending it and its client was there until the writer found out. The client
then gets an error, but the response counts as neither completed nor cancelled, for good.
-/

namespace GrpcContract

/-- Whether an operation is one of those that end a response. -/
def OutputOp.ends : OutputOp → Bool
  | .headers _ | .frame _ => false
  | .trailers _ | .complete | .reset _ => true

def SinkAct.ends : SinkAct → Bool
  | .advance next _ => next.isTerminal
  | .push _ => false

/-- A step that pushes what ends a response only after the response has ended. -/
def SinkAct.Orderly : SinkAct → Prop
  | .advance next ops => next.isTerminal = true ∨ ∀ op ∈ ops, op.ends = false
  | .push op => op.ends = false

theorem SinkCall.orderly_acts (s : Schema) (t : MessageType) (state : StreamState)
    (c : SinkCall) : ∀ act ∈ c.acts s t state, act.Orderly := by
  cases c with
  | send m =>
      simp only [acts]
      split <;> simp [SinkAct.Orderly, OutputOp.ends]
  | _ => simp [acts, SinkAct.Orderly, StreamState.isTerminal]

/-- A call that ends its response has a step that does. -/
theorem SinkCall.ends_acts (s : Schema) (t : MessageType) (state : StreamState) (c : SinkCall)
    (calls : List SinkCall) :
    (c.acts s t state).any SinkAct.ends = true ∨ Finale.ofCalls calls ≠ .missing ↔
      Finale.ofCalls (c :: calls) ≠ .missing := by
  cases c with
  | send m =>
      simp only [acts, Finale.ofCalls]
      split <;> simp [SinkAct.ends, StreamState.isTerminal]
  | _ => simp [acts, SinkAct.ends, StreamState.isTerminal, Finale.ofCalls]

theorem StreamState.canAdvance_of_terminal {state next : StreamState}
    (hstate : state.isTerminal = false) (hnext : next.isTerminal = true) :
    state.canAdvance next = true := by
  cases state <;> cases next <;>
    simp_all [StreamState.canAdvance, StreamState.isTerminal, StreamState.rank]

namespace Pipe

/-- What a step of the writer leaves alone, and what it tells the call. -/
theorem writerStep_rest (p : Pipe) (stage : WriterStage) :
    (p.writerStep stage).1.queueOpen = p.queueOpen ∧
      ((p.writerStep stage).1.writer.done = p.writer.done ∨ (p.writerStep stage).2 = .looping) ∧
      (stage = .signalling ∨ p.cancelled = true → (p.writerStep stage).1.cancelled = true) ∧
      (stage = .lost → p.outlet.state.isTerminal = false →
        (p.writerStep stage).2 = .signalling) := by
  cases stage with
  | looping =>
      simp only [writerStep]
      split
      · simp
      · split
        · split
          · simp [letGo]
          · split <;> simp [letGo]
        · split <;> simp
  | applying op =>
      cases op with
      | headers h =>
          simp only [writerStep, perform, sendHead]
          repeat' split
          all_goals simp
      | _ =>
          simp only [writerStep, perform, hold, sendOnlyHead, sendHead]
          repeat' split
          all_goals simp
  | drained => simp [writerStep]
  | leaving =>
      simp only [writerStep]
      split <;> simp [retire]
  | lost =>
      simp only [writerStep]
      split
      · simp
      · rename_i hstay
        simp only [retire, or_true, true_and, forall_const]
        refine ⟨by simp, fun hopen => ?_⟩
        exact absurd (StreamState.canAdvance_of_terminal hopen rfl) hstay
  | signalling => simp [writerStep, retire]

theorem read_rest (p : Pipe) :
    p.read.1.writer = p.writer ∧ p.read.1.queueOpen = p.queueOpen ∧
      (p.clientLost = true → p.read.1.clientLost = true) := by
  unfold read
  split
  · simp
  · simp
  · simp
  · rename_i hreading
    have hlost : p.clientLost = false := by simp [clientLost, hreading]
    repeat' split
    all_goals simp [hlost]

end Pipe

namespace Relay

/-- A response that has ended, or whose call is over. -/
def CallOver (r : Relay) : Prop :=
  r.pipe.outlet.state.isTerminal = true ∨
    r.pipe.queueOpen = false ∧ r.acts = [] ∧ r.calls = []

/-- Where the writer is as long as nothing ends the response. -/
def OpenStage (p : Pipe) : WriterStage → Prop
  | .looping | .lost => True
  | .applying op => op.ends = false
  | .leaving => p.clientLost = true
  | .drained | .signalling => False

theorem OpenStage.mono {p p' : Pipe} {stage : WriterStage} (hstage : OpenStage p stage)
    (hlost : p.clientLost = true → p'.clientLost = true) : OpenStage p' stage := by
  cases stage with
  | leaving => exact hlost hstage
  | _ => exact hstage

/-- A response that nothing has ended so far, and a writer that has found nothing that ends it. -/
structure Underway (r : Relay) : Prop where
  opened : r.pipe.queueOpen = true
  working : r.pipe.writer.done = false
  queued : ∀ op ∈ r.pipe.outlet.queue, op.ends = false
  begun : ∀ act ∈ r.acts, act.Orderly
  held : ∀ part, r.pipe.writer.held? = some part →
    (∃ bytes, part = .data bytes) ∧ r.pipe.writer.hasBody = true
  stage : OpenStage r.pipe r.stage

theorem underway_start (capacity : Nat) (calls : List SinkCall) :
    (start capacity calls).Underway :=
  ⟨rfl, rfl, by simp [start, Pipe.start], by simp [start], by simp [start, Pipe.start], trivial⟩

variable {r : Relay}

theorem read_rest (r : Relay) :
    r.read.acts = r.acts ∧ r.read.calls = r.calls ∧ r.read.stage = r.stage := by
  unfold read
  split <;> simp

theorem step_queueOpen (s : Schema) (t : MessageType) (r : Relay) {move : Move}
    (hmove : move ≠ .sink) :
    (r.step s t move).pipe.queueOpen = r.pipe.queueOpen ∧
      (r.step s t move).acts = r.acts ∧ (r.step s t move).calls = r.calls := by
  cases move with
  | sink => exact absurd rfl hmove
  | writer => exact ⟨(Pipe.writerStep_rest r.pipe r.stage).1, rfl, rfl⟩
  | notice =>
      simp only [step, notice]
      split <;> simp
  | read =>
      obtain ⟨hacts, hcalls, -⟩ := r.read_rest
      rw [step, pipe_read]
      exact ⟨r.pipe.read_rest.2.1, hacts, hcalls⟩
  | leave => exact ⟨rfl, rfl, rfl⟩

theorem CallOver.step (s : Schema) (t : MessageType) (hover : r.CallOver) (move : Move) :
    (r.step s t move).CallOver := by
  rcases hover with hterminal | ⟨hclosed, hacts, hcalls⟩
  · left
    rw [state_step_of_isTerminal s t r move hterminal]
    exact hterminal
  · right
    by_cases hmove : move = .sink
    · subst hmove
      simp [Relay.step, sinkStep, hacts, hcalls, Pipe.closeQueue]
    · obtain ⟨hopen, hacts', hcalls'⟩ := step_queueOpen s t r hmove
      exact ⟨hopen.trans hclosed, hacts'.trans hacts, hcalls'.trans hcalls⟩

theorem Underway.sinkStep (s : Schema) (t : MessageType) (hunder : r.Underway) :
    (r.sinkStep s t).CallOver ∨ (r.sinkStep s t).Underway := by
  obtain ⟨pipe, calls, acts, stage, received⟩ := r
  obtain ⟨hopened, hworking, hqueued, hbegun, hheld, hstage⟩ := hunder
  cases acts with
  | nil =>
      cases calls with
      | nil => exact .inl (.inr ⟨rfl, rfl, rfl⟩)
      | cons c calls =>
          exact .inr ⟨hopened, hworking, hqueued, SinkCall.orderly_acts s t _ c, hheld, hstage⟩
  | cons act acts =>
      rw [List.forall_mem_cons] at hbegun
      cases act with
      | push op =>
          right
          simp only at hworking
          have hpush : (pipe.push op).1 = { pipe with outlet := pipe.outlet.push [op] } := by
            simp [Pipe.push, hworking]
          simp only [Relay.sinkStep, hpush]
          refine ⟨hopened, hworking, ?_, hbegun.2, hheld, ?_⟩
          · intro op' hop
            simp only [Outlet.push, List.mem_append, List.mem_singleton] at hop
            rcases hop with hop | rfl
            · exact hqueued op' hop
            · exact hbegun.1
          · exact hstage.mono id
      | advance next ops =>
          simp only [Relay.sinkStep]
          split
          · rcases hbegun.1 with hterminal | hops
            · exact .inl (.inl hterminal)
            · right
              refine ⟨hopened, hworking, hqueued, ?_, hheld, ?_⟩
              · intro act hact
                rw [List.mem_append, List.mem_map] at hact
                rcases hact with ⟨op, hop, rfl⟩ | hact
                · exact hops op hop
                · exact hbegun.2 act hact
              · exact hstage.mono id
          · exact .inr ⟨hopened, hworking, hqueued, hbegun.2, hheld, hstage⟩

/-- The writer of a response that nothing has ended goes on, or loses its client and cancels. -/
theorem Underway.writerStep (hunder : r.Underway) :
    r.writerStep.CallOver ∨ r.writerStep.Underway := by
  obtain ⟨pipe, calls, acts, stage, received⟩ := r
  obtain ⟨hopened, hworking, hqueued, hbegun, hheld, hstage⟩ := hunder
  simp only at hopened hworking hqueued hbegun hheld hstage
  have hstep (p : Pipe) (next : WriterStage) (hnext : pipe.writerStep stage = (p, next)) :=
    writerStep_of_eq ⟨pipe, calls, acts, stage, received⟩ p next hnext
  cases stage with
  | looping =>
      cases hpart : pipe.writer.held? with
      | some part =>
          obtain ⟨⟨bytes, rfl⟩, hbody⟩ := hheld part hpart
          right
          by_cases hgone : pipe.client = .gone
          · have hleave : pipe.writerStep .looping = pipe.letGo false (.data bytes) := by
              simp [Pipe.writerStep, hworking, hpart, hgone]
            rw [hstep _ _ hleave]
            exact ⟨hopened, hworking, hqueued, hbegun, by simp,
              by simp [OpenStage, Pipe.clientLost, hbody, hgone]⟩
          · by_cases hroom : pipe.channel.length < pipe.capacity
            · rw [hstep _ _ (by rw [Pipe.writerStep_held hworking hpart hgone, if_pos hroom])]
              exact ⟨hopened, hworking, hqueued, hbegun, by simp, trivial⟩
            · rw [hstep _ _ (by rw [Pipe.writerStep_held hworking hpart hgone, if_neg hroom])]
              exact ⟨hopened, hworking, hqueued, hbegun, hheld, trivial⟩
      | none =>
          right
          have hidle := Pipe.writerStep_idle hworking hpart
          cases hqueue : pipe.outlet.queue with
          | nil =>
              rw [hqueue, hopened] at hidle
              rw [hstep _ _ hidle]
              exact ⟨hopened, hworking, hqueued, hbegun, hheld, trivial⟩
          | cons op ops =>
              rw [hqueue] at hidle hqueued
              rw [List.forall_mem_cons] at hqueued
              rw [hstep _ _ hidle]
              exact ⟨hopened, hworking, hqueued.2, hbegun, hheld, hqueued.1⟩
  | applying op =>
      right
      cases op with
      | headers h =>
          by_cases hsend : (pipe.writer.hasHead && pipe.client == .waiting) = true
          · rw [hstep _ _ (by rw [Pipe.writerStep, Pipe.perform, if_pos hsend])]
            simp only [Bool.and_eq_true, beq_iff_eq] at hsend
            simp only [Pipe.sendHead, hsend.2, ↓reduceIte]
            exact ⟨hopened, hworking, hqueued, hbegun,
              fun part hpart => ⟨(hheld part hpart).1, rfl⟩, trivial⟩
          · rw [hstep _ _ (by rw [Pipe.writerStep, Pipe.perform, if_neg hsend])]
            exact ⟨hopened, hworking, hqueued, hbegun, hheld, trivial⟩
      | frame bytes =>
          rw [hstep _ _ rfl]
          split
          · rename_i hbody
            refine ⟨hopened, hworking, hqueued, hbegun, ?_, trivial⟩
            intro part hpart
            cases hpart
            exact ⟨⟨bytes, rfl⟩, hbody⟩
          · exact ⟨hopened, hworking, hqueued, hbegun, hheld, trivial⟩
      | _ => cases hstage
  | drained => exact hstage.elim
  | leaving =>
      right
      have hlost : pipe.clientLost = true := hstage
      rw [hstep _ _ (by rw [Pipe.writerStep, if_pos hlost])]
      exact ⟨hopened, hworking, hqueued, hbegun, hheld, trivial⟩
  | lost =>
      left
      left
      by_cases hadvance : pipe.outlet.state.canAdvance .cancelled = true
      · rw [hstep _ _ (by rw [Pipe.writerStep, if_pos hadvance])]
        rfl
      · rw [hstep _ _ (by rw [Pipe.writerStep, if_neg hadvance])]
        cases hterminal : pipe.outlet.state.isTerminal with
        | true => exact hterminal
        | false => exact absurd (StreamState.canAdvance_of_terminal hterminal rfl) hadvance
  | signalling => exact hstage.elim

/-- A move takes a response on, or ends it, or its call is over. -/
theorem Underway.step (s : Schema) (t : MessageType) (hunder : r.Underway) (move : Move) :
    (r.step s t move).CallOver ∨ (r.step s t move).Underway := by
  cases move with
  | sink => exact hunder.sinkStep s t
  | writer => exact hunder.writerStep
  | notice =>
      right
      simp only [Relay.step, notice]
      split
      · rename_i hnotice
        simp only [Pipe.canNotice, Bool.and_eq_true] at hnotice
        exact ⟨hunder.opened, hunder.working, hunder.queued, hunder.begun, hunder.held,
          hnotice.2.2⟩
      · exact hunder
  | read =>
      right
      obtain ⟨hwriter, hopen, hlost⟩ := r.pipe.read_rest
      obtain ⟨hacts, -, hstage⟩ := r.read_rest
      rw [Relay.step]
      refine ⟨?_, ?_, ?_, hacts ▸ hunder.begun, ?_, ?_⟩
      · rw [pipe_read, hopen, hunder.opened]
      · rw [pipe_read, hwriter, hunder.working]
      · rw [pipe_read, (Pipe.read_frame r.pipe).1]
        exact hunder.queued
      · rw [pipe_read, hwriter]
        exact hunder.held
      · rw [pipe_read, hstage]
        exact hunder.stage.mono hlost
  | leave =>
      right
      refine ⟨hunder.opened, hunder.working, hunder.queued, hunder.begun, hunder.held, ?_⟩
      apply hunder.stage.mono
      intro hlost
      simp only [Pipe.clientLost, Bool.and_eq_true] at hlost
      simp only [Relay.step, Pipe.leave, Pipe.clientLost, hlost.1, beq_self_eq_true, Bool.and_self]

/-- A response either goes on, with a writer that works, or it has ended or its call is over. -/
theorem callOver_or_underway (s : Schema) (t : MessageType) (capacity : Nat)
    (calls : List SinkCall) (moves : List Move) :
    ((start capacity calls).run s t moves).CallOver ∨
      ((start capacity calls).run s t moves).Underway := by
  have hrun (r : Relay) (hr : r.CallOver ∨ r.Underway) :
      (r.run s t moves).CallOver ∨ (r.run s t moves).Underway := by
    induction moves generalizing r with
    | nil => exact hr
    | cons move moves ih =>
        apply ih (r.step s t move)
        rcases hr with hover | hunder
        · exact .inl (hover.step s t move)
        · exact hunder.step s t move
  exact hrun _ (.inr (underway_start capacity calls))

/-! ### What ends a response -/

/-- A response whose call still comes to end it. -/
def LeadsToEnd (r : Relay) : Prop :=
  r.acts.any SinkAct.ends = true ∨ Finale.ofCalls r.calls ≠ .missing

/-- The sink ends the response where its call comes to that. -/
theorem ended_sinkStep (s : Schema) (t : MessageType) (r : Relay) :
    ((r.sinkStep s t).pipe.outlet.state.isTerminal = true ∨ (r.sinkStep s t).LeadsToEnd) ↔
      (r.pipe.outlet.state.isTerminal = true ∨ r.LeadsToEnd) := by
  obtain ⟨pipe, calls, acts, stage, received⟩ := r
  cases acts with
  | nil =>
      cases calls with
      | nil => rfl
      | cons c calls =>
          simp only [sinkStep, LeadsToEnd]
          rw [SinkCall.ends_acts]
          simp
  | cons act acts =>
      cases act with
      | push op =>
          simp only [sinkStep, LeadsToEnd, Pipe.push]
          split <;> simp [SinkAct.ends, Outlet.push]
      | advance next ops =>
          have hops : (ops.map SinkAct.push ++ acts).any SinkAct.ends = acts.any SinkAct.ends := by
            simp [List.any_map, Function.comp_def, SinkAct.ends]
          simp only [sinkStep, LeadsToEnd, List.any_cons, Bool.or_eq_true]
          cases hopen : pipe.outlet.state.isTerminal with
          | true => simp [Outlet.canAdvance_of_isTerminal hopen, hopen]
          | false =>
              cases hnext : next.isTerminal with
              | true =>
                  simp [StreamState.canAdvance_of_terminal hopen hnext, hnext, SinkAct.ends]
              | false =>
                  -- An advance that ends nothing leaves it to the steps after it.
                  split <;> simp [hops, hopen, hnext, SinkAct.ends]

/-- The call knows, or is about to be told, that its client is gone. -/
def Told (r : Relay) : Prop :=
  r.stage = .signalling ∨ r.pipe.cancelled = true

theorem told_of_told (s : Schema) (t : MessageType) (r : Relay) (move : Move) (htold : r.Told) :
    (r.step s t move).Told := by
  cases move with
  | sink =>
      obtain ⟨outlet, queueOpen, acts, calls, hstep, -⟩ := sinkStep_frame s t r
      rw [step, hstep]
      exact htold
  | writer => exact .inr ((Pipe.writerStep_rest r.pipe r.stage).2.2.1 htold)
  | notice =>
      simp only [step, notice]
      split
      · rename_i hnotice
        exact .inr (htold.resolve_left (by simp [hnotice.1]))
      · exact htold
  | read =>
      rw [step, Told, r.read_rest.2.2, pipe_read, (Pipe.read_frame r.pipe).2]
      exact htold
  | leave => exact htold

/-- Everything but the sink ends a response only where it tells the call. -/
theorem told_of_ended (s : Schema) (t : MessageType) (r : Relay) {move : Move}
    (hmove : move ≠ .sink) (hbefore : r.pipe.outlet.state.isTerminal = false)
    (hafter : (r.step s t move).pipe.outlet.state.isTerminal = true) :
    (r.step s t move).Told := by
  have hchanged : (r.step s t move).pipe.outlet.state ≠ r.pipe.outlet.state := by
    intro hsame
    rw [hsame, hbefore] at hafter
    cases hafter
  cases move with
  | sink => exact absurd rfl hmove
  | writer =>
      obtain ⟨-, ⟨-, hsame, -⟩ | ⟨hlost, -⟩⟩ := Pipe.writerStep_frame r.pipe r.stage
      · exact absurd hsame hchanged
      · exact .inl ((Pipe.writerStep_rest r.pipe r.stage).2.2.2 hlost hbefore)
  | notice =>
      refine absurd ?_ hchanged
      simp only [step, notice]
      split <;> rfl
  | read =>
      refine absurd ?_ hchanged
      rw [step, pipe_read, (Pipe.read_frame r.pipe).1]
  | leave => exact absurd rfl hchanged

/-- A response has ended, or its call still ends it, where the call ends it from the start or was
told that its client is gone. -/
structure Accounted (f : Finale) (r : Relay) : Prop where
  ended_iff : r.pipe.outlet.state.isTerminal = true ∨ r.LeadsToEnd ↔ f ≠ .missing ∨ r.Told
  told : r.Told → r.pipe.outlet.state.isTerminal = true

theorem accounted_start (capacity : Nat) (calls : List SinkCall) :
    (start capacity calls).Accounted (.ofCalls calls) := by
  constructor
  · simp [start, Pipe.start, LeadsToEnd, Told, StreamState.isTerminal]
  · simp [start, Pipe.start, Told]

theorem Accounted.step (s : Schema) (t : MessageType) {f : Finale} (hacc : r.Accounted f)
    (move : Move) : (r.step s t move).Accounted f := by
  have htold : (r.step s t move).Told → (r.step s t move).pipe.outlet.state.isTerminal = true := by
    intro hafter
    by_cases hbefore : r.Told
    · rw [state_step_of_isTerminal s t r move (hacc.told hbefore)]
      exact hacc.told hbefore
    · rw [(told_step s t r move hbefore hafter).2]
      rfl
  refine ⟨?_, htold⟩
  by_cases hmove : move = .sink
  · subst hmove
    have hsame : (r.step s t .sink).Told ↔ r.Told := by
      obtain ⟨outlet, queueOpen, acts, calls, hstep, -⟩ := sinkStep_frame s t r
      rw [Relay.step, hstep]
      rfl
    rw [hsame, ← hacc.ended_iff]
    exact ended_sinkStep s t r
  · obtain ⟨-, hacts, hcalls⟩ := step_queueOpen s t r hmove
    have hleads : (r.step s t move).LeadsToEnd ↔ r.LeadsToEnd := by
      rw [LeadsToEnd, hacts, hcalls, LeadsToEnd]
    rw [hleads]
    have hiff := hacc.ended_iff
    have hkept := told_of_told s t r move
    constructor
    · rintro (hended | hlead)
      · cases hbefore : r.pipe.outlet.state.isTerminal with
        | true => exact (hiff.mp (.inl hbefore)).imp_right hkept
        | false => exact .inr (told_of_ended s t r hmove hbefore hended)
      · exact (hiff.mp (.inr hlead)).imp_right hkept
    · rintro (hends | hafter)
      · rcases hiff.mpr (.inl hends) with hbefore | hlead
        · left
          rw [state_step_of_isTerminal s t r move hbefore]
          exact hbefore
        · exact .inr hlead
      · exact .inl (htold hafter)

theorem accounted_run (s : Schema) (t : MessageType) (capacity : Nat) (calls : List SinkCall)
    (moves : List Move) :
    ((start capacity calls).run s t moves).Accounted (.ofCalls calls) := by
  have hrun (r : Relay) (hr : r.Accounted (.ofCalls calls)) :
      (r.run s t moves).Accounted (.ofCalls calls) := by
    induction moves generalizing r with
    | nil => exact hr
    | cons move moves ih => exact ih (r.step s t move) (hr.step s t move)
  exact hrun _ (accounted_start capacity calls)

/-! ### A writer that has stopped -/

theorem writer_step (s : Schema) (t : MessageType) (r : Relay) {move : Move}
    (hmove : move ≠ .writer) :
    (r.step s t move).pipe.writer = r.pipe.writer ∧
      (r.pipe.writer.done = true → (r.step s t move).stage = r.stage) := by
  cases move with
  | sink =>
      obtain ⟨outlet, queueOpen, acts, calls, hstep, -⟩ := sinkStep_frame s t r
      rw [step, hstep]
      simp
  | writer => exact absurd rfl hmove
  | notice =>
      simp only [step, notice]
      split
      · rename_i hnotice
        simp only [Pipe.canNotice, Bool.and_eq_true, Bool.not_eq_true'] at hnotice
        simp [hnotice.2.1.1]
      · simp
  | read =>
      rw [step, pipe_read]
      exact ⟨r.pipe.read_rest.1, fun _ => r.read_rest.2.2⟩
  | leave => simp [step, Pipe.leave]

/-- A writer that has stopped is at the top of its loop. -/
theorem looping_step (s : Schema) (t : MessageType) (r : Relay) (move : Move)
    (hloop : r.pipe.writer.done = true → r.stage = .looping)
    (hdone : (r.step s t move).pipe.writer.done = true) : (r.step s t move).stage = .looping := by
  by_cases hmove : move = .writer
  · subst hmove
    rcases (Pipe.writerStep_rest r.pipe r.stage).2.1 with hsame | hnext
    · have hbefore : r.pipe.writer.done = true := hsame.symm.trans hdone
      have hstay : r.writerStep = r := by
        apply writerStep_of_blocked
        rw [hloop hbefore, Pipe.writerStep_done hbefore]
      rw [step, hstay]
      exact hloop hbefore
    · exact hnext
  · obtain ⟨hwriter, hstage⟩ := writer_step s t r hmove
    rw [hwriter] at hdone
    rw [hstage hdone]
    exact hloop hdone

theorem looping_run (s : Schema) (t : MessageType) (r : Relay) (moves : List Move)
    (hloop : r.pipe.writer.done = true → r.stage = .looping)
    (hdone : (r.run s t moves).pipe.writer.done = true) : (r.run s t moves).stage = .looping := by
  induction moves generalizing r with
  | nil => exact hloop hdone
  | cons move moves ih => exact ih (r.step s t move) (looping_step s t r move hloop) hdone

/-- A call that is over, and a writer that has stopped. -/
structure Stopped (r : Relay) : Prop where
  closed : r.pipe.queueOpen = false ∧ r.acts = [] ∧ r.calls = []
  done : r.pipe.writer.done = true
  looping : r.stage = .looping

theorem Stopped.step (s : Schema) (t : MessageType) (hstopped : r.Stopped) (move : Move) :
    (r.step s t move).Stopped ∧ (r.step s t move).pipe.outlet = r.pipe.outlet := by
  obtain ⟨⟨hclosed, hacts, hcalls⟩, hdone, hloop⟩ := hstopped
  cases move with
  | sink =>
      have hstep : r.sinkStep s t = { r with pipe := r.pipe.closeQueue } := by
        simp [sinkStep, hacts, hcalls]
      rw [Relay.step, hstep]
      exact ⟨⟨⟨rfl, hacts, hcalls⟩, hdone, hloop⟩, rfl⟩
  | writer =>
      have hstay : r.writerStep = r := by
        apply writerStep_of_blocked
        rw [hloop, Pipe.writerStep_done hdone]
      rw [Relay.step, hstay]
      exact ⟨⟨⟨hclosed, hacts, hcalls⟩, hdone, hloop⟩, rfl⟩
  | notice =>
      have hstay : r.notice = r := by simp [notice, Pipe.canNotice, hdone]
      rw [Relay.step, hstay]
      exact ⟨⟨⟨hclosed, hacts, hcalls⟩, hdone, hloop⟩, rfl⟩
  | read =>
      obtain ⟨hwriter, hopen, -⟩ := r.pipe.read_rest
      obtain ⟨hacts', hcalls', hstage⟩ := r.read_rest
      rw [Relay.step]
      refine ⟨⟨⟨?_, hacts'.trans hacts, hcalls'.trans hcalls⟩, ?_, hstage.trans hloop⟩, ?_⟩
      · rw [pipe_read, hopen, hclosed]
      · rw [pipe_read, hwriter, hdone]
      · rw [pipe_read, (Pipe.read_frame r.pipe).1]
  | leave => exact ⟨⟨⟨hclosed, hacts, hcalls⟩, hdone, hloop⟩, rfl⟩

theorem Stopped.run (s : Schema) (t : MessageType) (hstopped : r.Stopped) (moves : List Move) :
    (r.run s t moves).pipe.outlet = r.pipe.outlet := by
  induction moves generalizing r with
  | nil => rfl
  | cons move moves ih =>
      obtain ⟨hnext, hsame⟩ := hstopped.step s t move
      exact (ih hnext).trans hsame

/-- When the writer has stopped, the response has ended exactly where its sink ended it or the call
was told that its client is gone, whatever the order of the steps was. A response that has not ended
by then never does. -/
theorem isTerminal_iff_of_done (s : Schema) (t : MessageType) (capacity : Nat)
    (calls : List SinkCall) (moves : List Move)
    (hdone : ((start capacity calls).run s t moves).pipe.writer.done = true) :
    let run := (start capacity calls).run s t
    ((run moves).pipe.outlet.state.isTerminal = true ↔
        Finale.ofCalls calls ≠ .missing ∨ (run moves).pipe.cancelled = true) ∧
      ((run moves).pipe.outlet.state.isTerminal = false →
        ∀ later, (run (moves ++ later)).pipe.outlet.state = (run moves).pipe.outlet.state) := by
  intro run
  have hloop : (run moves).stage = .looping :=
    looping_run s t _ moves (by simp [start, Pipe.start]) hdone
  have hacc := accounted_run s t capacity calls moves
  have htold : (run moves).Told ↔ (run moves).pipe.cancelled = true := by
    simp [Told, hloop]
  have hiff : (run moves).pipe.outlet.state.isTerminal = true ∨ (run moves).LeadsToEnd ↔
      Finale.ofCalls calls ≠ .missing ∨ (run moves).pipe.cancelled = true := by
    rw [← htold]
    exact hacc.ended_iff
  rcases callOver_or_underway s t capacity calls moves with hover | hunder
  · rcases hover with hterminal | hclosed
    · constructor
      · rw [← hiff]
        simp [run, hterminal]
      · intro hopen
        exact absurd (hterminal.symm.trans hopen) (by simp)
    · have hnone : ¬(run moves).LeadsToEnd := by
        simp [run, LeadsToEnd, hclosed.2.1, hclosed.2.2, Finale.ofCalls]
      constructor
      · rw [← hiff]
        simp [hnone]
      · intro _ later
        have hstopped : (run moves).Stopped := ⟨hclosed, hdone, hloop⟩
        have happend : run (moves ++ later) = (run moves).run s t later :=
          run_append s t _ moves later
        rw [happend, hstopped.run s t later]
  · exact absurd (hdone.symm.trans hunder.working) (by simp)

end Relay

namespace Sample

open Relay

/-- A client that leaves before a response has begun cancels it. -/
theorem ended_of_left :
    let run := (start 1 []).run schema (oneValue "UnaryResponse")
    let moves := [.leave, .notice, .writer, .writer, .writer]
    (run moves).pipe.writer.done = true ∧
      (run moves).pipe.outlet.state.isTerminal = true := by
  intro run moves
  have hdone : (run moves).pipe.writer.done = true := by decide
  have hcancelled : (run moves).pipe.cancelled = true := by decide
  have hiff := (isTerminal_iff_of_done schema (oneValue "UnaryResponse") 1 [] moves hdone).1
  exact ⟨hdone, hiff.mpr (.inr hcancelled)⟩

/-- A sink that is dropped at once leaves a response that never ends. -/
theorem unended_of_dropped :
    ¬∀ (s : Schema) (t : MessageType) (capacity : Nat) (calls : List SinkCall) (moves : List Move),
      ((start capacity calls).run s t moves).pipe.writer.done = true →
        ((start capacity calls).run s t moves).pipe.outlet.state.isTerminal = true := by
  intro hends
  have hended := hends schema (oneValue "UnaryResponse") 1 []
    [.sink, .writer, .writer, .writer, .writer] (by decide)
  exact absurd hended (by decide)

end Sample

end GrpcContract
