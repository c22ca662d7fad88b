import GrpcContract.Proofs.ResponseFlow

/-!
# A client that stays

As long as the client does not leave, no move changes what it is to receive, and a move that does
something leaves less work. Where no one can do anything more, the client has come to the end.
-/

namespace GrpcContract

namespace Relay

variable (s : Schema) (t : MessageType)

/-- What holds of a response as long as its client has not left. -/
structure Staying (f : Finale) (expected : List Receipt) (r : Relay) : Prop where
  room : 0 < r.pipe.capacity
  quiet : r.pipe.cancelled = false
  unopened : r.pipe.client = .waiting → r.pipe.head? = none
  unread : r.pipe.client ≠ .reading → r.pipe.channel = []
  closed : r.pipe.queueOpen = false → r.acts = [] ∧ r.calls = []
  drained : r.stage = .drained → r.pipe.queueOpen = false
  unended : f = .missing → (r.outcome s t).state.isTerminal = false
  flow : ∃ rest, expected = r.received ++ r.pipe.channel.map .part ++ rest ∧
    Flow f r.pipe.writer r.stage r.pipe.client (r.outcome s t).queue rest

/-- An upper bound for the moves that do something until the client has received all. -/
def work (r : Relay) : Nat :=
  5 * r.calls.length + actsLeft r.acts + (if r.pipe.queueOpen then 1 else 0) +
    5 * (r.outcome s t).queue.length + 2 * r.pipe.channel.length +
      writerWork r.pipe.writer r.stage r.pipe.client

theorem staying_start (capacity : Nat) (calls : List SinkCall) :
    Staying s t (.ofCalls calls) (Receipt.ofCalls s t calls) (start capacity calls) := by
  obtain ⟨hqueue, hunended⟩ := Outlet.onEvents_calls s t calls
  refine ⟨Nat.lt_of_lt_of_le Nat.zero_lt_one (Nat.le_max_right ..), rfl, fun _ => rfl,
    fun _ => rfl, by simp [start, Pipe.start], by simp [start], hunended, _, rfl, ?_⟩
  have hflow := Flow.fresh (f := .ofCalls calls)
    ((SinkEvent.sent (calls.map .call)).map fun m => Frame.encode (m.write s t))
  rw [← hqueue] at hflow
  exact hflow

variable {s t} {f : Finale} {expected : List Receipt} {r : Relay}

/-- A move that leaves alone what the call has queued and leads to. -/
theorem Staying.move (hstay : r.Staying s t f expected) {writer : Writer}
    {channel : List BodyPart} {client : Client} {head? : Option ResponseHead} {stage : WriterStage}
    {received rest : List Receipt} (hunopened : client = .waiting → head? = none)
    (hunread : client ≠ .reading → channel = [])
    (hdrained : stage = .drained → r.pipe.queueOpen = false)
    (hexpected : expected = received ++ channel.map .part ++ rest)
    (hflow : Flow f writer stage client (r.outcome s t).queue rest)
    (hless : 2 * channel.length + writerWork writer stage client <
      2 * r.pipe.channel.length + writerWork r.pipe.writer r.stage r.pipe.client) :
    let r' := { r with pipe := { r.pipe with writer, channel, client, head? }, stage, received }
    r'.Staying s t f expected ∧ r'.work s t < r.work s t := by
  constructor
  · exact ⟨hstay.room, hstay.quiet, hunopened, hunread, hstay.closed, hdrained, hstay.unended,
      rest, hexpected, hflow⟩
  · have hsame : outcome s t
        { r with pipe := { r.pipe with writer, channel, client, head? }, stage, received } =
          r.outcome s t := rfl
    simp only [work, hsame]
    omega

theorem Staying.sinkStep (hstay : r.Staying s t f expected) :
    (r.sinkStep s t).Staying s t f expected ∧
      (r.sinkStep s t = r ∧ r.pipe.queueOpen = false ∨ (r.sinkStep s t).work s t < r.work s t) := by
  obtain ⟨rest, hexpected, hflow⟩ := hstay.flow
  have hpush (op : OutputOp) (acts : List SinkAct) (hacts : r.acts = .push op :: acts) :
      r.pipe.writer.done = false := by
    cases hdone : r.pipe.writer.done with
    | false => rfl
    | true => exact absurd hacts (not_push_of_outcome s t (hflow.of_done hdone).2.1 op acts)
  have houtcome := outcome_sinkStep s t r hpush
  obtain ⟨outlet, queueOpen, acts, calls, hstep, -, hsink⟩ := sinkStep_frame s t r
  rw [hstep] at houtcome ⊢
  constructor
  · refine ⟨hstay.room, hstay.quiet, hstay.unopened, hstay.unread, ?_, ?_, ?_, rest, hexpected, ?_⟩
    · intro hclosed
      rcases hsink with ⟨-, -, hacts, hcalls, hnone⟩ | ⟨hopen, hsome, -⟩
      · exact ⟨hacts.trans hnone.1, hcalls.trans hnone.2⟩
      · obtain ⟨hacts, hcalls⟩ := hstay.closed (hopen ▸ hclosed)
        exact absurd hcalls (hsome hacts)
    · intro hstage
      rcases hsink with ⟨hclosed, -⟩ | ⟨hopen, -⟩
      · exact hclosed
      · exact hopen.trans (hstay.drained hstage)
    · rw [houtcome]
      exact hstay.unended
    · rw [houtcome]
      exact hflow
  · unfold work
    rw [houtcome]
    rcases hsink with ⟨rfl, rfl, rfl, rfl, -⟩ | ⟨rfl, -, hless⟩
    · by_cases hopen : r.pipe.queueOpen = true
      · right
        simp [hopen]
      · rw [Bool.not_eq_true] at hopen
        left
        constructor
        · rw [← hopen]
        · exact hopen
    · right
      dsimp only
      omega

theorem outcome_of_closed (hclosed : r.acts = [] ∧ r.calls = []) :
    r.outcome s t = r.pipe.outlet := by
  simp [outcome, pending, hclosed, Outlet.onEvents]

theorem Staying.writerStep_held (hstay : r.Staying s t f expected) (hstage : r.stage = .looping)
    (hdone : r.pipe.writer.done = false) {part : BodyPart}
    (hheld : r.pipe.writer.held? = some part) (hroom : r.pipe.channel.length < r.pipe.capacity) :
    r.writerStep.Staying s t f expected ∧ r.writerStep.work s t < r.work s t := by
  obtain ⟨rest, hexpected, hflow⟩ := hstay.flow
  rw [hstage] at hflow
  obtain ⟨stage, rest', hletGo, hreading, hdrained, hrest, hflow', hless⟩ := hflow.letGo hheld
  have hstep := writerStep_of_eq r
    { r.pipe with
      writer := { r.pipe.writer with held? := none }, channel := r.pipe.channel ++ [part] }
    stage
    (by rw [hstage, Pipe.writerStep_held hdone hheld hflow.client_ne_gone, if_pos hroom, hletGo])
  rw [hstep]
  apply hstay.move hstay.unopened (fun h => absurd hreading h) (fun h => absurd h hdrained) ?_
    hflow'
  · rw [hstage, List.length_append, List.length_singleton]
    omega
  · simp [hexpected, hrest, newHead]

theorem Staying.writerStep_applying (hstay : r.Staying s t f expected) {op : OutputOp}
    (hstage : r.stage = .applying op) :
    r.writerStep.Staying s t f expected ∧ r.writerStep.work s t < r.work s t := by
  obtain ⟨rest, hexpected, hflow⟩ := hstay.flow
  rw [hstage] at hflow
  obtain ⟨writer, stage, client, head?, rest', hperform, hreading, hwaiting, hdrained, hrest,
    hflow', hless⟩ := hflow.perform hstay.unopened
  have hstep := writerStep_of_eq r { r.pipe with writer, client, head? } stage
    (by rw [hstage]; exact hperform)
  rw [hstep]
  apply hstay.move (fun h => absurd h hwaiting)
    (fun h => hstay.unread fun hread => h (hreading hread).1) (fun h => absurd h hdrained) ?_ hflow'
  · rw [hstage]
    omega
  · rw [hexpected, hrest]
    by_cases hread : r.pipe.client = .reading
    · simp [newHead, (hreading hread).2]
    · simp [hstay.unread hread]

theorem Staying.writerStep_queued (hstay : r.Staying s t f expected) (hstage : r.stage = .looping)
    (hdone : r.pipe.writer.done = false) (hheld : r.pipe.writer.held? = none) {op : OutputOp}
    {ops : List OutputOp} (hqueue : r.pipe.outlet.queue = op :: ops) :
    r.writerStep.Staying s t f expected ∧ r.writerStep.work s t < r.work s t := by
  obtain ⟨rest, hexpected, hflow⟩ := hstay.flow
  have houtcome := outcome_after s t r [op] ops hqueue
  have hhead :
      newHead r.pipe { r.pipe with outlet := { r.pipe.outlet with queue := ops } } = [] := by
    simp [newHead]
  have hstep := writerStep_of_eq r
    { r.pipe with outlet := { r.pipe.outlet with queue := ops } } (.applying op)
    (by rw [hstage, Pipe.writerStep_idle hdone hheld, hqueue])
  rw [hhead, List.append_nil] at hstep
  rw [hstage, houtcome] at hflow
  have hunended := hstay.unended
  rw [houtcome] at hunended
  have hless := writerWork_applying_lt hdone op r.pipe.client
  rw [hstep]
  constructor
  · exact ⟨hstay.room, hstay.quiet, hstay.unopened, hstay.unread, hstay.closed, by simp, hunended,
      rest, hexpected, hflow.pop hheld hdone⟩
  · have hsame : outcome s t { r with
        pipe := { r.pipe with outlet := { r.pipe.outlet with queue := ops } }
        stage := .applying op } =
      outcome s t
        { r with pipe := { r.pipe with outlet := { r.pipe.outlet with queue := ops } } } := rfl
    simp only [work, hsame, houtcome, hstage, Outlet.after, List.length_append,
      List.length_singleton]
    omega

theorem Staying.writerStep_closed (hstay : r.Staying s t f expected) (hstage : r.stage = .looping)
    (hdone : r.pipe.writer.done = false) (hheld : r.pipe.writer.held? = none)
    (hqueue : r.pipe.outlet.queue = []) (hclosed : r.pipe.queueOpen = false) :
    r.writerStep.Staying s t f expected ∧ r.writerStep.work s t < r.work s t := by
  obtain ⟨rest, hexpected, hflow⟩ := hstay.flow
  have houtcome := outcome_of_closed (s := s) (t := t) (hstay.closed hclosed)
  have hstep := writerStep_of_eq r r.pipe .drained
    (by rw [hstage, Pipe.writerStep_idle hdone hheld, hqueue, hclosed]; rfl)
  rw [newHead_self, List.append_nil] at hstep
  rw [hstage, houtcome, hqueue] at hflow
  rw [hstep]
  apply hstay.move hstay.unopened hstay.unread (fun _ => hclosed) hexpected
  · rw [houtcome, hqueue]
    exact (hflow.drain hheld hdone).2
  · rw [hstage]
    exact Nat.add_lt_add_left (writerWork_lt_of_stage hdone (by decide) _) _

/-- At the end of the queue the writer ends a response that has not ended. -/
theorem Staying.writerStep_drained (hstay : r.Staying s t f expected)
    (hstage : r.stage = .drained) :
    r.writerStep.Staying s t f expected ∧ r.writerStep.work s t < r.work s t := by
  obtain ⟨rest, hexpected, hflow⟩ := hstay.flow
  have houtcome := outcome_of_closed (s := s) (t := t) (hstay.closed (hstay.drained hstage))
  have hunended := hstay.unended
  rw [houtcome] at hunended
  rw [hstage] at hflow
  generalize hqueue : (r.outcome s t).queue = queue at hflow
  generalize hwriter : r.pipe.writer = writer at hflow
  cases hflow with
  | drained hmissing hready =>
      subst hmissing
      have hdone : r.pipe.writer.done = false := hwriter ▸ hready.done_eq_false
      have hstep := writerStep_of_eq r r.pipe (.applying (.reset Pipe.noStatus))
        (by rw [hstage, Pipe.writerStep, hunended rfl]; rfl)
      rw [newHead_self, List.append_nil] at hstep
      rw [hstep]
      apply hstay.move hstay.unopened hstay.unread (by simp) hexpected
      · rw [hqueue, hwriter]
        exact .ending hready
      · rw [hstage]
        exact Nat.add_lt_add_left (writerWork_lt_of_stage hdone (by decide) _) _

/-- A writer that has come to the end stops, without looking for its client. -/
theorem Staying.writerStep_leaving (hstay : r.Staying s t f expected)
    (hstage : r.stage = .leaving) :
    r.writerStep.Staying s t f expected ∧ r.writerStep.work s t < r.work s t := by
  obtain ⟨rest, hexpected, hflow⟩ := hstay.flow
  rw [hstage] at hflow
  generalize hqueue : (r.outcome s t).queue = queue at hflow
  generalize hwriter : r.pipe.writer = writer at hflow
  cases hflow with
  | leaving hclient =>
      have hstep := writerStep_of_eq r r.pipe.retire .looping
        (by simp [hstage, Pipe.writerStep, Pipe.clientLost, hwriter])
      have hhead : newHead r.pipe r.pipe.retire = [] := by simp [newHead, Pipe.retire]
      rw [hhead, List.append_nil] at hstep
      rw [hstep]
      apply hstay.move hstay.unopened hstay.unread (by simp) hexpected
      · rw [hqueue]
        exact .stopped hclient
      · rw [hstage, hwriter]
        simp only [writerWork, stageWork, Option.isSome_none, Bool.false_eq_true, ↓reduceIte]
        omega

theorem Staying.writerStep (hstay : r.Staying s t f expected) :
    r.writerStep = r ∧
        (r.pipe.queueOpen = false → r.pipe.channel = [] → r.pipe.writer.done = true) ∨
      r.writerStep.Staying s t f expected ∧ r.writerStep.work s t < r.work s t := by
  obtain ⟨rest, -, hflow⟩ := hstay.flow
  cases hstage : r.stage with
  | looping =>
      cases hdone : r.pipe.writer.done with
      | true =>
          left
          exact ⟨writerStep_of_blocked (by rw [hstage, Pipe.writerStep_done hdone]), fun _ _ => rfl⟩
      | false =>
          cases hheld : r.pipe.writer.held? with
          | some part =>
              by_cases hroom : r.pipe.channel.length < r.pipe.capacity
              · exact .inr (hstay.writerStep_held hstage hdone hheld hroom)
              · left
                constructor
                · apply writerStep_of_blocked
                  rw [hstage, Pipe.writerStep_held hdone hheld hflow.client_ne_gone, if_neg hroom]
                · intro _ hempty
                  rw [hempty] at hroom
                  exact absurd hstay.room hroom
          | none =>
              cases hqueue : r.pipe.outlet.queue with
              | cons op ops => exact .inr (hstay.writerStep_queued hstage hdone hheld hqueue)
              | nil =>
                  cases hopen : r.pipe.queueOpen with
                  | false => exact .inr (hstay.writerStep_closed hstage hdone hheld hqueue hopen)
                  | true =>
                      left
                      refine ⟨writerStep_of_blocked ?_, by simp⟩
                      rw [hstage, Pipe.writerStep_idle hdone hheld, hqueue, hopen]
                      rfl
  | applying op => exact .inr (hstay.writerStep_applying hstage)
  | drained => exact .inr (hstay.writerStep_drained hstage)
  | leaving => exact .inr (hstay.writerStep_leaving hstage)
  | lost => exact absurd hstage hflow.stage_ne.1
  | signalling => exact absurd hstage hflow.stage_ne.2

/-- A client that stays and reads gets the next part, or comes to the end. -/
theorem Staying.read (hstay : r.Staying s t f expected) :
    r.read = r ∧ (r.pipe.client = .reading → r.pipe.channel = [] ∧ r.pipe.channelOpen = true) ∨
      r.read.Staying s t f expected ∧ r.read.work s t < r.work s t := by
  obtain ⟨rest, hexpected, hflow⟩ := hstay.flow
  by_cases hreading : r.pipe.client = .reading
  · rw [hreading] at hflow
    cases hchannel : r.pipe.channel with
    | cons part parts =>
        right
        have hread : r.read = { r with
            pipe := { r.pipe with channel := parts }, received := r.received ++ [.part part] } := by
          simp [Relay.read, Pipe.read, hreading, hchannel]
        rw [hread]
        apply hstay.move hstay.unopened (fun h => absurd hreading h) hstay.drained ?_
          (hreading ▸ hflow)
        · rw [hchannel, List.length_cons]
          omega
        · simp [hexpected, hchannel]
    | nil =>
        cases hopen : r.pipe.channelOpen with
        | true =>
            left
            refine ⟨?_, fun _ => ⟨rfl, rfl⟩⟩
            simp [Relay.read, Pipe.read, hreading, hchannel, hopen]
        | false =>
            right
            have hread : r.read = { r with pipe := { r.pipe with client := .finished } } := by
              simp [Relay.read, Pipe.read, hreading, hchannel, hopen]
            simp only [Pipe.channelOpen, Bool.or_eq_false_iff, Option.isSome_eq_false_iff,
              Option.isNone_iff_eq_none] at hopen
            obtain ⟨hrest, hflow'⟩ := hflow.finish hopen.1 hopen.2
            rw [hread]
            apply hstay.move (by simp) (fun _ => hchannel) hstay.drained ?_ hflow'
            · rw [hreading, writerWork, writerWork]
              simp only [clientWork]
              omega
            · rw [hexpected, hrest]
  · left
    refine ⟨?_, fun h => absurd h hreading⟩
    cases hclient : r.pipe.client with
    | reading => exact absurd hclient hreading
    | _ => simp [Relay.read, Pipe.read, hclient]

theorem Staying.notice (hstay : r.Staying s t f expected) : r.notice = r := by
  obtain ⟨rest, -, hflow⟩ := hstay.flow
  have hlost : r.pipe.clientLost = false := by
    simp [Pipe.clientLost, hflow.client_ne_gone]
  simp [Relay.notice, Pipe.canNotice, hlost]

/-- Each move of a client that stays, and of the tasks that serve it, does nothing or leaves less
work. -/
theorem Staying.step (hstay : r.Staying s t f expected) {move : Move} (hmove : move ≠ .leave) :
    (r.step s t move).Staying s t f expected ∧
      (r.step s t move = r ∨ (r.step s t move).work s t < r.work s t) := by
  cases move with
  | sink =>
      obtain ⟨hstay', ⟨hsame, -⟩ | hless⟩ := hstay.sinkStep
      · exact ⟨hstay', .inl hsame⟩
      · exact ⟨hstay', .inr hless⟩
  | writer =>
      obtain ⟨hsame, -⟩ | ⟨hstay', hless⟩ := hstay.writerStep
      · exact ⟨by rw [Relay.step, hsame]; exact hstay, .inl hsame⟩
      · exact ⟨hstay', .inr hless⟩
  | notice =>
      have hsame : r.step s t .notice = r := hstay.notice
      exact ⟨by rw [hsame]; exact hstay, .inl hsame⟩
  | read =>
      obtain ⟨hsame, -⟩ | ⟨hstay', hless⟩ := hstay.read
      · exact ⟨by rw [Relay.step, hsame]; exact hstay, .inl hsame⟩
      · exact ⟨hstay', .inr hless⟩
  | leave => exact absurd rfl hmove

/-- Where no one can do anything the client has come to the end. -/
theorem Staying.finished_of_stuck (hstay : r.Staying s t f expected)
    (hsink : r.sinkStep s t = r) (hwriter : r.writerStep = r) (hread : r.read = r) :
    r.pipe.client = .finished := by
  -- A party that changes nothing has no work left, as any other step of its would lower the work.
  have hclosed : r.pipe.queueOpen = false := by
    obtain ⟨-, ⟨-, hclosed⟩ | hless⟩ := hstay.sinkStep
    · exact hclosed
    · rw [hsink] at hless
      exact absurd hless (Nat.lt_irrefl _)
  have hdone : r.pipe.channel = [] → r.pipe.writer.done = true := by
    obtain ⟨-, hdone⟩ | ⟨-, hless⟩ := hstay.writerStep
    · exact hdone hclosed
    · rw [hwriter] at hless
      exact absurd hless (Nat.lt_irrefl _)
  have hpending : r.pipe.client = .reading →
      r.pipe.channel = [] ∧ r.pipe.channelOpen = true := by
    obtain ⟨-, hpending⟩ | ⟨-, hless⟩ := hstay.read
    · exact hpending
    · rw [hread] at hless
      exact absurd hless (Nat.lt_irrefl _)
  obtain ⟨rest, -, hflow⟩ := hstay.flow
  by_cases hreading : r.pipe.client = .reading
  · obtain ⟨hchannel, hopen⟩ := hpending hreading
    rw [Pipe.channelOpen, (hflow.of_done (hdone hchannel)).1] at hopen
    cases hopen
  · exact (hflow.of_done (hdone (hstay.unread hreading))).2.2.resolve_left hreading

/-- A schedule in which the client does not leave and everyone else makes a move. -/
structure Round (moves : List Move) : Prop where
  stays : .leave ∉ moves
  sink : .sink ∈ moves
  writer : .writer ∈ moves
  read : .read ∈ moves

theorem Staying.run (hstay : r.Staying s t f expected) {moves : List Move}
    (hmoves : .leave ∉ moves) :
    (r.run s t moves).Staying s t f expected ∧
      ((∀ move ∈ moves, r.step s t move = r) ∧ r.run s t moves = r ∨
        (r.run s t moves).work s t < r.work s t) := by
  induction moves generalizing r with
  | nil => exact ⟨hstay, .inl ⟨by simp, rfl⟩⟩
  | cons move moves ih =>
      rw [List.mem_cons, not_or] at hmoves
      obtain ⟨hnext, hstep⟩ := hstay.step fun h => hmoves.1 h.symm
      obtain ⟨hlast, hrun⟩ := ih hnext hmoves.2
      refine ⟨hlast, ?_⟩
      rcases hstep with hsame | hless
      · rw [hsame] at hrun
        rw [Relay.run, List.foldl_cons, hsame]
        rcases hrun with ⟨hblocked, hrun⟩ | hless
        · exact .inl ⟨by simpa [hsame] using hblocked, hrun⟩
        · exact .inr hless
      · right
        rcases hrun with ⟨-, hrun⟩ | hless'
        · rw [← hrun] at hless
          exact hless
        · exact Nat.lt_trans hless' hless

/-- A round leaves less work unless the client has come to the end. -/
theorem Staying.round (hstay : r.Staying s t f expected) {moves : List Move}
    (hround : Round moves) :
    (r.run s t moves).pipe.client = .finished ∨ (r.run s t moves).work s t < r.work s t := by
  obtain ⟨-, ⟨hblocked, hrun⟩ | hless⟩ := hstay.run hround.stays
  · left
    rw [hrun]
    exact hstay.finished_of_stuck (hblocked _ hround.sink) (hblocked _ hround.writer)
      (hblocked _ hround.read)
  · exact .inr hless

theorem Staying.received_of_finished (hstay : r.Staying s t f expected)
    (hfinished : r.pipe.client = .finished) : r.received = expected := by
  obtain ⟨rest, hexpected, hflow⟩ := hstay.flow
  rw [hfinished] at hflow
  rw [hexpected, hflow.rest_of_finished, hstay.unread (by simp [hfinished])]
  simp

theorem step_of_client (s : Schema) (t : MessageType) (r : Relay) (move : Move)
    (hclient : r.pipe.client = .finished ∧ move ≠ .leave ∨ r.pipe.client = .gone) :
    (r.step s t move).pipe.client = r.pipe.client ∧ (r.step s t move).received = r.received := by
  have hwaiting : r.pipe.client ≠ .waiting := by
    rcases hclient with ⟨hclient, -⟩ | hclient <;> simp [hclient]
  cases move with
  | sink =>
      obtain ⟨outlet, queueOpen, acts, calls, hstep, -⟩ := sinkStep_frame s t r
      rw [step, hstep]
      exact ⟨rfl, rfl⟩
  | writer =>
      obtain ⟨hclient', hhead⟩ := (Pipe.writerStep_frame r.pipe r.stage).1 hwaiting
      refine ⟨hclient', ?_⟩
      simp [step, Relay.writerStep, newHead, hhead]
  | notice =>
      simp only [step, notice]
      split <;> exact ⟨rfl, rfl⟩
  | read => rcases hclient with ⟨hclient, -⟩ | hclient <;> simp [step, read, Pipe.read, hclient]
  | leave =>
      have hgone := hclient.resolve_left fun h => h.2 rfl
      exact ⟨hgone.symm, rfl⟩

theorem run_of_finished (s : Schema) (t : MessageType) (r : Relay)
    (hfinished : r.pipe.client = .finished) {moves : List Move} (hmoves : .leave ∉ moves) :
    (r.run s t moves).pipe.client = .finished := by
  induction moves generalizing r with
  | nil => exact hfinished
  | cons move moves ih =>
      rw [List.mem_cons, not_or] at hmoves
      have hstep := (step_of_client s t r move (.inl ⟨hfinished, fun h => hmoves.1 h.symm⟩)).1
      exact ih (r.step s t move) (hstep.trans hfinished) hmoves.2

/-- As many rounds as there is work bring a client to the end. -/
theorem Staying.rounds (hstay : r.Staying s t f expected) {rounds : List (List Move)}
    (hrounds : ∀ moves ∈ rounds, Round moves) (hlength : r.work s t < rounds.length) :
    (r.run s t rounds.flatten).Staying s t f expected ∧
      (r.run s t rounds.flatten).pipe.client = .finished := by
  have hstays : .leave ∉ rounds.flatten := by
    rw [List.mem_flatten]
    rintro ⟨moves, hmem, hleave⟩
    exact (hrounds moves hmem).stays hleave
  refine ⟨(hstay.run hstays).1, ?_⟩
  -- By induction on the rounds: the work is below their number, and each round takes one of both.
  induction rounds generalizing r with
  | nil => exact absurd hlength (Nat.not_lt_zero _)
  | cons moves rounds ih =>
      have hround := hrounds moves (by simp)
      have hrest (moves : List Move) (hmem : moves ∈ rounds) : Round moves :=
        hrounds moves (by simp [hmem])
      rw [List.flatten_cons, List.mem_append, not_or] at hstays
      rw [List.flatten_cons, run_append]
      rcases hstay.round hround with hfinished | hless
      · exact run_of_finished s t _ hfinished hstays.2
      · rw [List.length_cons] at hlength
        exact ih (hstay.run hround.stays).1 hrest (by omega) hstays.2

end Relay

end GrpcContract
