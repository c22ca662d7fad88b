import GrpcContract.Proofs.StayingClient

/-!
# What a client receives in every schedule

A client that stays receives one sequence that its call decides, and one that leaves has received a
beginning of it. The state of the response only moves forward, so whatever cancels it does so for
good.
-/

namespace GrpcContract

namespace Relay

variable {s : Schema} {t : MessageType} {f : Finale} {expected : List Receipt} {r : Relay}

/-- The state of a response only moves forward. -/
theorem state_step (s : Schema) (t : MessageType) (r : Relay) (move : Move) :
    (r.step s t move).pipe.outlet.state = r.pipe.outlet.state ∨
      r.pipe.outlet.state.canAdvance (r.step s t move).pipe.outlet.state = true := by
  cases move with
  | sink =>
      obtain ⟨outlet, queueOpen, acts, calls, hstep, hstate, -⟩ := sinkStep_frame s t r
      rw [step, hstep]
      exact hstate
  | writer =>
      obtain ⟨-, ⟨-, hstate, -⟩ | ⟨-, hadvance, hstate⟩⟩ := Pipe.writerStep_frame r.pipe r.stage
      · exact .inl hstate
      · right
        simp only [step, Relay.writerStep]
        rw [hstate]
        exact hadvance
  | notice =>
      left
      simp only [step, notice]
      split <;> rfl
  | read =>
      left
      rw [step, pipe_read, (Pipe.read_frame r.pipe).1]
  | leave => exact .inl rfl

theorem state_step_of_isTerminal (s : Schema) (t : MessageType) (r : Relay) (move : Move)
    (hterminal : r.pipe.outlet.state.isTerminal = true) :
    (r.step s t move).pipe.outlet.state = r.pipe.outlet.state := by
  rcases state_step s t r move with hsame | hadvance
  · exact hsame
  · rw [Outlet.canAdvance_of_isTerminal hterminal] at hadvance
    cases hadvance

theorem state_run_of_isTerminal (s : Schema) (t : MessageType) (r : Relay) (moves : List Move)
    (hterminal : r.pipe.outlet.state.isTerminal = true) :
    (r.run s t moves).pipe.outlet.state = r.pipe.outlet.state := by
  induction moves generalizing r with
  | nil => rfl
  | cons move moves ih =>
      have hstep := state_step_of_isTerminal s t r move hterminal
      exact (ih (r.step s t move) (by rw [hstep]; exact hterminal)).trans hstep

/-- What holds of a response whose client left it in a state. -/
structure Gone (expected : List Receipt) (left : StreamState) (r : Relay) : Prop where
  client : r.pipe.client = .gone
  received : r.received <+: expected
  ended : left.isTerminal = true → r.pipe.outlet.state.isTerminal = true
  told : r.stage = .signalling ∨ r.pipe.cancelled = true →
    r.pipe.outlet.state = .cancelled ∧ left.isTerminal = false

variable {left : StreamState}

theorem Staying.received_prefix (hstay : r.Staying s t f expected) : r.received <+: expected := by
  obtain ⟨rest, hexpected, -⟩ := hstay.flow
  exact ⟨r.pipe.channel.map .part ++ rest, by rw [hexpected, List.append_assoc]⟩

theorem Staying.leave (hstay : r.Staying s t f expected) :
    (r.step s t .leave).Gone expected r.pipe.outlet.state := by
  obtain ⟨rest, -, hflow⟩ := hstay.flow
  refine ⟨rfl, hstay.received_prefix, id, ?_⟩
  rintro (hsignalling | hcancelled)
  · exact absurd hsignalling hflow.stage_ne.2
  · exact absurd (hstay.quiet.symm.trans hcancelled) Bool.false_ne_true

/-- The call comes to be told only by a writer that has lost its client. -/
theorem told_step (s : Schema) (t : MessageType) (r : Relay) (move : Move)
    (hbefore : ¬(r.stage = .signalling ∨ r.pipe.cancelled = true))
    (hafter : (r.step s t move).stage = .signalling ∨ (r.step s t move).pipe.cancelled = true) :
    r.pipe.outlet.state.canAdvance .cancelled = true ∧
      (r.step s t move).pipe.outlet.state = .cancelled := by
  cases move with
  | sink =>
      obtain ⟨outlet, queueOpen, acts, calls, hstep, -⟩ := sinkStep_frame s t r
      rw [step, hstep] at hafter
      exact absurd hafter hbefore
  | writer =>
      obtain ⟨-, ⟨hstage, -, hcancelled⟩ | ⟨-, hadvance, hstate⟩⟩ :=
        Pipe.writerStep_frame r.pipe r.stage
      · rcases hafter with hsignalling | htold
        · exact absurd hsignalling hstage
        · rcases hcancelled with hsame | hsignalling
          · exact absurd (.inr (hsame.symm.trans htold)) hbefore
          · exact absurd (.inl hsignalling) hbefore
      · exact ⟨hadvance, hstate⟩
  | notice =>
      simp only [step, notice] at hafter
      split at hafter
      · rcases hafter with hsignalling | htold
        · cases hsignalling
        · exact absurd (.inr htold) hbefore
      · exact absurd hafter hbefore
  | read =>
      have hstage : r.read.stage = r.stage := by
        unfold read
        split <;> rfl
      rw [step, pipe_read, hstage, (Pipe.read_frame r.pipe).2] at hafter
      exact absurd hafter hbefore
  | leave => exact absurd hafter hbefore

theorem Gone.step (hgone : r.Gone expected left) (move : Move) :
    (r.step s t move).Gone expected left := by
  obtain ⟨hclient, hreceived⟩ := step_of_client s t r move (.inr hgone.client)
  refine ⟨hclient.trans hgone.client, by rw [hreceived]; exact hgone.received, ?_, ?_⟩
  · intro hleft
    rw [state_step_of_isTerminal s t r move (hgone.ended hleft)]
    exact hgone.ended hleft
  · intro htold
    by_cases hbefore : r.stage = .signalling ∨ r.pipe.cancelled = true
    · obtain ⟨hstate, hleft⟩ := hgone.told hbefore
      rw [state_step_of_isTerminal s t r move (by rw [hstate]; rfl)]
      exact ⟨hstate, hleft⟩
    · obtain ⟨hadvance, hstate⟩ := told_step s t r move hbefore htold
      refine ⟨hstate, ?_⟩
      cases hleft : left.isTerminal with
      | false => rfl
      | true =>
          rw [Outlet.canAdvance_of_isTerminal (hgone.ended hleft)] at hadvance
          cases hadvance

theorem Gone.run (hgone : r.Gone expected left) (moves : List Move) :
    (r.run s t moves).Gone expected left := by
  induction moves generalizing r with
  | nil => exact hgone
  | cons move moves ih => exact ih (hgone.step move)

/-- A client stays, or there is a move at which it leaves. -/
theorem Staying.run_or_leave (hstay : r.Staying s t f expected) (moves : List Move) :
    (r.run s t moves).Staying s t f expected ∨
      ∃ before after, moves = before ++ .leave :: after ∧
        (r.run s t before).pipe.client ≠ .gone ∧
        (r.run s t moves).Gone expected (r.run s t before).pipe.outlet.state := by
  induction moves generalizing r with
  | nil => exact .inl hstay
  | cons move moves ih =>
      by_cases hmove : move = .leave
      · right
        subst hmove
        obtain ⟨rest, -, hflow⟩ := hstay.flow
        exact ⟨[], moves, rfl, hflow.client_ne_gone, hstay.leave.run moves⟩
      · rcases ih (hstay.step hmove).1 with hend | ⟨before, after, hmoves, hclient, hgone⟩
        · exact .inl hend
        · exact .inr ⟨move :: before, after, by rw [hmoves, List.cons_append], hclient, hgone⟩

/-- Whatever the order of the steps, a client has received a beginning of one sequence that the call
alone decides: a head, the frames and what ends them, or a head alone. A client that has come to
the end has received all of it, and one that stays gets there in a bounded number of rounds in which
everyone makes a move. The call is told that its client is gone only if the client left a response
that had not ended, and then the response is cancelled for good. -/
theorem run_interleaved (s : Schema) (t : MessageType) (capacity : Nat) (calls : List SinkCall)
    (moves : List Move) :
    let expected := Receipt.ofCalls s t calls
    let run := (start capacity calls).run s t
    (run moves).received <+: expected ∧
      ((run moves).pipe.client = .finished → (run moves).received = expected) ∧
      ((run moves).pipe.client ≠ .gone →
        ∃ n, ∀ rounds : List (List Move), (∀ round ∈ rounds, Round round) → n ≤ rounds.length →
          (run (moves ++ rounds.flatten)).pipe.client = .finished ∧
            (run (moves ++ rounds.flatten)).received = expected) ∧
      ((run moves).pipe.cancelled = true →
        (∃ before after, moves = before ++ .leave :: after ∧
          (run before).pipe.client ≠ .gone ∧ (run before).pipe.outlet.state.isTerminal = false) ∧
        ∀ later, (run (moves ++ later)).pipe.outlet.state = .cancelled) := by
  intro expected run
  rcases (staying_start s t capacity calls).run_or_leave moves with
    hstay | ⟨before, after, hmoves, hclient, hgone⟩
  · refine ⟨hstay.received_prefix, hstay.received_of_finished, ?_, ?_⟩
    · intro _
      refine ⟨(run moves).work s t + 1, ?_⟩
      intro rounds hrounds hlength
      obtain ⟨hend, hfinished⟩ := hstay.rounds hrounds hlength
      have happend : run (moves ++ rounds.flatten) = (run moves).run s t rounds.flatten :=
        run_append s t _ moves _
      rw [happend]
      exact ⟨hfinished, hend.received_of_finished hfinished⟩
    · intro hcancelled
      exact absurd (hstay.quiet.symm.trans hcancelled) Bool.false_ne_true
  · refine ⟨hgone.received, ?_, fun hnot => absurd hgone.client hnot, ?_⟩
    · intro hfinished
      exact absurd (hgone.client.symm.trans hfinished) (by simp)
    · intro hcancelled
      obtain ⟨hstate, hleft⟩ := hgone.told (.inr hcancelled)
      refine ⟨⟨before, after, hmoves, hclient, hleft⟩, ?_⟩
      intro later
      have happend : run (moves ++ later) = (run moves).run s t later :=
        run_append s t _ moves later
      rw [happend, state_run_of_isTerminal s t _ later (by rw [hstate]; rfl)]
      exact hstate

end Relay

end GrpcContract
