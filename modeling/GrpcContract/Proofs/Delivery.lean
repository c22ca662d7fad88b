import GrpcContract.Bridge
import GrpcContract.Proofs.Outlets

/-!
# Delivery of a response

What a client that reads to the end gets of each outlet of an ended call. The writer and the client
take turns over a channel with little room; what is in the channel, what the writer holds and what
it still finds in the queue are together the parts that the client has yet to read.
-/

namespace GrpcContract

namespace Pipe

/-- What a writer that has sent the head still puts into the channel. -/
inductive Phase : Writer → List OutputOp → List BodyPart → Prop
  | writing (frames : List (List UInt8)) (h : Headers) :
    Phase ⟨false, true, none, false⟩ (frames.map .frame ++ [.trailers h, .complete])
      (frames.map .data ++ [.trailers h])
  | holding (frame : List UInt8) (frames : List (List UInt8)) (h : Headers) :
    Phase ⟨false, true, some (.data frame), false⟩ (frames.map .frame ++ [.trailers h, .complete])
      (.data frame :: frames.map .data ++ [.trailers h])
  | ending (h : Headers) :
    Phase ⟨false, false, some (.trailers h), false⟩ [.complete] [.trailers h]
  | ended : Phase ⟨false, false, none, false⟩ [.complete] []
  | stopped : Phase ⟨false, false, none, true⟩ [] []

/-- The parts that a reading client has yet to read. -/
structure Flows (p : Pipe) (parts : List BodyPart) : Prop where
  client : p.client = .reading
  room : 0 < p.capacity
  phase : ∃ tail, parts = p.channel ++ tail ∧ Phase p.writer p.outlet.queue tail

/-- How many steps the writer can still make. -/
def work (p : Pipe) : Nat :=
  2 * p.outlet.queue.length + (if p.writer.held?.isSome then 1 else 0) +
    (if p.writer.done then 0 else 1)

/-- A step of the writer changes nothing about what the client gets. -/
theorem Flows.step {p p' : Pipe} {parts : List BodyPart} (hflows : p.Flows parts)
    (hstep : p.step? = some p') :
    p'.Flows parts ∧ p'.head? = p.head? ∧ p'.work < p.work := by
  obtain ⟨hclient, hroom, tail, hparts, hphase⟩ := hflows
  obtain ⟨⟨state, queue⟩, queueOpen, capacity, writer, channel, client, head?, cancelled⟩ := p
  simp only at hclient hroom hparts hphase
  subst hclient
  cases hphase with
  | writing frames h =>
      cases frames with
      | nil =>
          simp only [step?, List.map_nil, List.nil_append, apply, hold, Bool.false_eq_true,
            ↓reduceIte, Option.some.injEq] at hstep
          subst hstep
          refine ⟨⟨rfl, hroom, _, hparts, .ending h⟩, rfl, ?_⟩
          simp [work]
      | cons frame frames =>
          simp only [step?, List.map_cons, List.cons_append, apply, hold, Bool.false_eq_true,
            ↓reduceIte, Option.some.injEq] at hstep
          subst hstep
          refine ⟨⟨rfl, hroom, _, hparts, .holding frame frames h⟩, rfl, ?_⟩
          simp [work]
          omega
  | holding frame frames h =>
      by_cases hfull : channel.length < capacity
      · simp only [step?, hfull, release, Bool.false_eq_true, ↓reduceIte, reduceCtorEq,
          Option.some.injEq] at hstep
        subst hstep
        refine ⟨⟨rfl, hroom, _, ?_, .writing frames h⟩, rfl, ?_⟩
        · simp [hparts]
        · simp [work]
      · simp [step?, hfull] at hstep
  | ending h =>
      by_cases hfull : channel.length < capacity
      · simp only [step?, hfull, release, Bool.false_eq_true, ↓reduceIte, reduceCtorEq,
          Option.some.injEq] at hstep
        subst hstep
        refine ⟨⟨rfl, hroom, _, ?_, .ended⟩, rfl, ?_⟩
        · simp [hparts]
        · simp [work]
      · simp [step?, hfull] at hstep
  | ended =>
      simp only [step?, apply, stop, clientLost, Bool.false_eq_true, ↓reduceIte,
        Option.some.injEq] at hstep
      subst hstep
      refine ⟨⟨rfl, hroom, _, hparts, ?_⟩, rfl, ?_⟩
      · exact .stopped
      · simp [work]
  | stopped => simp [step?] at hstep

/-- A writer that cannot go on has put a part into the channel, unless it is done. -/
theorem Flows.of_stuck {p : Pipe} {part : BodyPart} {parts : List BodyPart}
    (hflows : p.Flows (part :: parts)) (hstuck : p.step? = none) :
    ∃ rest, p.channel = part :: rest := by
  obtain ⟨hclient, hroom, tail, hparts, hphase⟩ := hflows
  obtain ⟨⟨state, queue⟩, queueOpen, capacity, writer, channel, client, head?, cancelled⟩ := p
  simp only at hclient hroom hparts hphase hstuck ⊢
  subst hclient
  cases channel with
  | cons part' rest =>
      simp only [List.cons_append, List.cons.injEq] at hparts
      exact ⟨rest, by rw [hparts.1]⟩
  | nil =>
      cases hphase with
      | writing frames h => cases frames <;> simp [step?] at hstuck
      | holding frame frames h => simp [step?, hroom] at hstuck
      | ending h => simp [step?, hroom] at hstuck
      | ended => simp [step?] at hstuck
      | stopped => simp at hparts

/-- A writer that cannot go on although nothing is left to read is done. -/
theorem Flows.read_nil {p : Pipe} (hflows : p.Flows []) (hstuck : p.step? = none) :
    p.read.2 = .ended := by
  obtain ⟨hclient, hroom, tail, hparts, hphase⟩ := hflows
  obtain ⟨hchannel, rfl⟩ := List.append_eq_nil_iff.mp hparts.symm
  obtain ⟨⟨state, queue⟩, queueOpen, capacity, writer, channel, client, head?, cancelled⟩ := p
  simp only at hclient hchannel hphase
  subst hclient hchannel
  generalize hnil : ([] : List BodyPart) = tail at hphase
  cases hphase with
  | writing frames h => cases frames <;> cases hnil
  | holding frame frames h => cases hnil
  | ending h => cases hnil
  | ended => simp [step?] at hstuck
  | stopped => rfl

theorem Flows.steps {p : Pipe} {parts : List BodyPart} (hflows : p.Flows parts) {n : Nat}
    (hwork : p.work ≤ n) :
    (p.steps n).Flows parts ∧ (p.steps n).head? = p.head? ∧ (p.steps n).step? = none := by
  induction n generalizing p with
  | zero =>
      refine ⟨hflows, rfl, ?_⟩
      cases hstep : p.step? with
      | none => exact hstep
      | some p' =>
          have hless := (hflows.step hstep).2.2
          omega
  | succ n ih =>
      cases hstep : p.step? with
      | none =>
          have hstop : p.steps (n + 1) = p := by simp [Pipe.steps, hstep]
          rw [hstop]
          exact ⟨hflows, rfl, hstep⟩
      | some p' =>
          obtain ⟨hflows', hhead, hless⟩ := hflows.step hstep
          obtain ⟨hend, hhead', hstuck⟩ := ih hflows' (by omega)
          simp only [Pipe.steps, hstep]
          exact ⟨hend, hhead'.trans hhead, hstuck⟩

theorem Flows.settle {p : Pipe} {parts : List BodyPart} (hflows : p.Flows parts) :
    p.settle.Flows parts ∧ p.settle.step? = none := by
  have hwork : p.work ≤ 2 * p.outlet.queue.length + 3 := by
    unfold work
    split <;> split <;> omega
  obtain ⟨hend, -, hstuck⟩ := hflows.steps hwork
  exact ⟨hend, hstuck⟩

theorem readAll_of_settle {p : Pipe} {parts : List BodyPart} {n : Nat}
    (hflows : p.settle.Flows parts) (hstuck : p.settle.step? = none) (hlength : parts.length ≤ n) :
    p.readAll n = parts := by
  induction parts generalizing p n with
  | nil =>
      cases n with
      | zero => rfl
      | succ n =>
          have hread := hflows.read_nil hstuck
          unfold readAll
          split
          · rename_i part heq
            rw [heq] at hread
            cases hread
          · rfl
  | cons part parts ih =>
      cases n with
      | zero => simp at hlength
      | succ n =>
          obtain ⟨rest, hchannel⟩ := hflows.of_stuck hstuck
          have hread : p.settle.read = ({ p.settle with channel := rest }, .part part) := by
            simp [Pipe.read, hflows.client, hchannel]
          have hflows' : Flows { p.settle with channel := rest } parts := by
            obtain ⟨hclient, hroom, tail, hparts, hphase⟩ := hflows
            rw [hchannel, List.cons_append, List.cons.injEq] at hparts
            exact ⟨hclient, hroom, tail, hparts.2, hphase⟩
          have hrest := ih hflows'.settle.1 hflows'.settle.2
            (Nat.le_of_succ_le_succ (by simpa using hlength))
          unfold readAll
          rw [hread]
          simp only [hrest]

/-- The pipe of a response that has ended before its client reads. -/
def ended (capacity : Nat) (outlet : Outlet) : Pipe :=
  { Pipe.start capacity with outlet, queueOpen := false }

/-- The pipe of a response of frames after its head was sent. -/
def headSent (capacity : Nat) (frames : List (List UInt8)) : Pipe :=
  { outlet := ⟨.completed, frames.map .frame ++ [.trailers Status.ok.headers, .complete]⟩
    queueOpen := false
    capacity := max capacity 1
    writer := { hasHead := false, hasBody := true }
    client := .reading
    head? := some (.ofHeaders initialHeaders false) }

theorem flows_headSent (capacity : Nat) (frames : List (List UInt8)) :
    (headSent capacity frames).Flows (frames.map .data ++ [.trailers Status.ok.headers]) :=
  ⟨rfl, Nat.lt_of_lt_of_le Nat.zero_lt_one (Nat.le_max_right ..), _, rfl, .writing frames _⟩

theorem settle_delivered (capacity : Nat) (frame : List UInt8) (frames : List (List UInt8)) :
    (ended capacity (.delivered frame frames)).settle =
      (headSent capacity (frame :: frames)).steps (2 * (frames.length + 4) + 2) := by
  have hlength : (Outlet.delivered frame frames).queue.length = frames.length + 4 := by
    simp [Outlet.delivered]
  unfold settle
  rw [show (ended capacity (.delivered frame frames)).outlet.queue.length = frames.length + 4
    from hlength]
  rfl

end Pipe

namespace Bridge

open Pipe

/-- A response of frames is delivered as a head without a status, the frames, and a status. -/
theorem respond_delivered (b : Bridge) (frame : List UInt8) (frames : List (List UInt8)) :
    b.respond (.delivered frame frames) =
      (.ofHeaders initialHeaders false,
        (frame :: frames).map .data ++ [.trailers Status.ok.headers]) := by
  have hwork : (headSent b.config.outputBuffer (frame :: frames)).work ≤
      2 * (frames.length + 4) + 2 := by
    simp [work, headSent]
    omega
  obtain ⟨hend, hhead, hstuck⟩ :=
    (flows_headSent b.config.outputBuffer (frame :: frames)).steps hwork
  rw [← settle_delivered] at hend hhead hstuck
  have hbody : (ended b.config.outputBuffer (.delivered frame frames)).body =
      (frame :: frames).map .data ++ [.trailers Status.ok.headers] :=
    readAll_of_settle hend hstuck (by simp [ended, Outlet.delivered, Pipe.start])
  have hrespond : b.respond (.delivered frame frames) =
      ((ended b.config.outputBuffer (.delivered frame frames)).settle.head?.getD
          (.ofStatus (.because .internal "call ended without a response")),
        (ended b.config.outputBuffer (.delivered frame frames)).body) := rfl
  rw [hrespond, hhead, hbody]
  rfl

theorem respond_failed (b : Bridge) (s : Status) :
    b.respond (.failed s) = (.ofStatus s, []) := rfl

theorem respond_refused (b : Bridge) (s : Status) :
    b.respond (.refused s) = (.ofStatus s, []) := rfl

theorem respond_broken (b : Bridge) (s : Status) :
    b.respond (.broken s) = (.ofStatus s, []) := rfl

theorem respond_untouched (b : Bridge) : b.respond {} = (.ofStatus Pipe.noStatus, []) := rfl

end Bridge

end GrpcContract
