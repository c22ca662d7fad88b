import GrpcContract.Proofs.SmallSteps

/-!
# Schedules of a response

A schedule says whose step comes next: the sink's, the writer's or the client's. The writer may
notice at any time that its client is gone, and the client may leave at any time. What a call does
to its sink and a step of the pipe are runs in which no one else moves.
-/

namespace GrpcContract

inductive Receipt
  | head (head : ResponseHead)
  | part (part : BodyPart)

inductive Move
  | sink
  | writer
  | notice
  | read
  | leave
deriving DecidableEq

/-- A response, what its call has yet to do, where its writer is, and what its client has received
so far. -/
structure Relay where
  pipe : Pipe
  calls : List SinkCall
  acts : List SinkAct := []
  stage : WriterStage := .looping
  received : List Receipt := []

namespace Relay

def start (capacity : Nat) (calls : List SinkCall) : Relay :=
  { pipe := .start capacity, calls }

variable (s : Schema) (t : MessageType)

/-- The next step of the sink, which is dropped after the last call. -/
def sinkStep (r : Relay) : Relay :=
  match r.acts with
  | .advance next ops :: acts =>
    if r.pipe.outlet.state.canAdvance next then
      { r with
        pipe := { r.pipe with outlet := { r.pipe.outlet with state := next } }
        acts := ops.map SinkAct.push ++ acts }
    else { r with acts }
  | .push op :: acts => { r with pipe := (r.pipe.push op).1, acts }
  | [] =>
    match r.calls with
    | c :: calls => { r with calls, acts := c.acts s t r.pipe.outlet.state }
    | [] => { r with pipe := r.pipe.closeQueue }

/-- The head that a client has got between two points. -/
def newHead (p p' : Pipe) : List Receipt :=
  if p'.head? = p.head? then [] else p'.head?.toList.map .head

def writerStep (r : Relay) : Relay :=
  let (p, stage) := r.pipe.writerStep r.stage
  { r with pipe := p, stage, received := r.received ++ newHead r.pipe p }

def notice (r : Relay) : Relay :=
  if r.stage = .looping ∧ r.pipe.canNotice then { r with stage := .leaving } else r

def read (r : Relay) : Relay :=
  match r.pipe.read with
  | (p, .part part) => { r with pipe := p, received := r.received ++ [.part part] }
  | (p, _) => { r with pipe := p }

theorem pipe_read (r : Relay) : r.read.pipe = r.pipe.read.1 := by
  unfold read
  split <;> simp [*]

def step (r : Relay) : Move → Relay
  | .sink => r.sinkStep s t
  | .writer => r.writerStep
  | .notice => r.notice
  | .read => r.read
  | .leave => { r with pipe := r.pipe.leave }

def run (r : Relay) (moves : List Move) : Relay :=
  moves.foldl (step s t) r

theorem run_append (r : Relay) (moves later : List Move) :
    r.run s t (moves ++ later) = (r.run s t moves).run s t later :=
  List.foldl_append

/-- How many steps are left of those that a call has begun. -/
def actsLeft : List SinkAct → Nat
  | [] => 0
  | .advance _ ops :: acts => actsLeft acts + ops.length + 1
  | .push _ :: acts => actsLeft acts + 1

theorem actsLeft_pushes (ops : List OutputOp) (acts : List SinkAct) :
    actsLeft (ops.map SinkAct.push ++ acts) = ops.length + actsLeft acts := by
  induction ops with
  | nil => simp
  | cons op ops ih =>
      rw [List.map_cons, List.cons_append, actsLeft, ih, List.length_cons]
      omega

/-- What the response becomes where nothing interrupts the call that is under way. -/
def pending (r : Relay) : Outlet :=
  r.acts.foldl Outlet.act r.pipe.outlet

/-- Each step that a call has begun is one of those that it still leads to. -/
theorem sinkStep_acts (r : Relay) (hacts : r.acts ≠ [])
    (hpush : ∀ op acts, r.acts = .push op :: acts → r.pipe.writer.done = false) :
    ∃ outlet acts, r.sinkStep s t = { r with pipe := { r.pipe with outlet }, acts } ∧
      acts.foldl Outlet.act outlet = r.pending ∧ actsLeft acts < actsLeft r.acts := by
  obtain ⟨pipe, calls, acts, stage, received⟩ := r
  cases acts with
  | nil => exact absurd rfl hacts
  | cons act acts =>
      cases act with
      | push op =>
          refine ⟨pipe.outlet.push [op], acts, ?_, rfl, ?_⟩
          · have hpush : (pipe.push op).1 = { pipe with outlet := pipe.outlet.push [op] } := by
              unfold Pipe.push
              rw [hpush op acts rfl]
              rfl
            simp [sinkStep, hpush]
          · simp [actsLeft]
      | advance next ops =>
          by_cases hadvance : pipe.outlet.state.canAdvance next = true
          · refine ⟨{ pipe.outlet with state := next }, ops.map SinkAct.push ++ acts, ?_, ?_, ?_⟩
            · simp [sinkStep, hadvance]
            · rw [Outlet.foldl_act_push]
              simp [pending, Outlet.act, Outlet.advancePushing, hadvance, Outlet.push]
            · rw [actsLeft_pushes]
              simp only [actsLeft]
              omega
          · refine ⟨pipe.outlet, acts, ?_, ?_, ?_⟩
            · simp [sinkStep, hadvance]
            · simp [pending, Outlet.act, Outlet.advancePushing, hadvance]
            · simp only [actsLeft]
              omega

theorem exists_run_acts (r : Relay) (hdone : r.pipe.writer.done = false) :
    ∃ n, r.run s t (List.replicate n .sink) =
      { r with pipe := { r.pipe with outlet := r.pending }, acts := [] } := by
  induction hleft : actsLeft r.acts using Nat.strongRecOn generalizing r with
  | ind left ih =>
      by_cases hacts : r.acts = []
      · refine ⟨0, ?_⟩
        simp only [pending, hacts, List.foldl_nil]
        rw [← hacts]
        rfl
      · obtain ⟨outlet, acts, hstep, hpending, hless⟩ :=
          sinkStep_acts s t r hacts fun _ _ _ => hdone
        obtain ⟨n, hn⟩ :=
          ih _ (hleft ▸ hless) { r with pipe := { r.pipe with outlet }, acts } hdone rfl
        refine ⟨n + 1, ?_⟩
        rw [List.replicate_succ, run, List.foldl_cons, step, hstep]
        rw [run] at hn
        rw [hn, ← hpending]
        rfl

/-- What a call does to its sink is a run of the sink's steps. -/
theorem exists_run_call (r : Relay) {c : SinkCall} {calls : List SinkCall}
    (hcalls : r.calls = c :: calls) (hacts : r.acts = []) (hdone : r.pipe.writer.done = false) :
    ∃ n, r.run s t (List.replicate n .sink) =
      { r with pipe := { r.pipe with outlet := r.pipe.outlet.call s t c }, calls } := by
  have hstep : r.sinkStep s t = { r with calls, acts := c.acts s t r.pipe.outlet.state } := by
    simp [sinkStep, hcalls, hacts]
  obtain ⟨n, hn⟩ := exists_run_acts s t (r.sinkStep s t) (by rw [hstep]; exact hdone)
  refine ⟨n + 1, ?_⟩
  rw [List.replicate_succ, run, List.foldl_cons, step]
  rw [run] at hn
  rw [hn, hstep, pending, SinkCall.foldl_acts, ← hacts]

theorem run_writer (r : Relay) (n : Nat) :
    let r' := r.run s t (List.replicate n .writer)
    (r'.pipe, r'.stage) = Pipe.writerSteps n (r.pipe, r.stage) := by
  induction n generalizing r with
  | zero => rfl
  | succ n ih => exact ih r.writerStep

/-- A step of the pipe is a run of the writer, which may notice first that its client is gone. -/
theorem exists_run_step? (r : Relay) {p : Pipe} (hstage : r.stage = .looping)
    (hstep : r.pipe.step? = some p) :
    ∃ moves, (∀ move ∈ moves, move = .writer ∨ move = .notice) ∧
      (r.run s t moves).pipe = p ∧ (r.run s t moves).stage = .looping := by
  obtain ⟨n, stage, hfirst, hn⟩ := Pipe.exists_writerSteps_of_step? hstep
  obtain rfl | ⟨rfl, hnotice⟩ := hfirst
  · refine ⟨List.replicate n .writer, by simp, ?_⟩
    have hrun := run_writer s t r n
    rw [hstage, hn] at hrun
    exact Prod.mk.inj hrun
  · refine ⟨.notice :: List.replicate n .writer, by simp, ?_⟩
    have hleaving : r.notice = { r with stage := .leaving } := by
      simp [notice, hstage, hnotice]
    have hrun := run_writer s t r.notice n
    rw [hleaving, hn] at hrun
    rw [run, List.foldl_cons, step, hleaving]
    exact Prod.mk.inj hrun

/-! ### What a step leaves alone -/

theorem actsLeft_acts (state : StreamState) (c : SinkCall) :
    actsLeft (c.acts s t state) < 5 := by
  cases c with
  | send m =>
      simp only [SinkCall.acts]
      split <;> simp [actsLeft]
  | _ => simp [SinkCall.acts, actsLeft]

theorem sinkStep_frame (r : Relay) :
    ∃ outlet queueOpen acts calls,
      r.sinkStep s t = { r with pipe := { r.pipe with outlet, queueOpen }, acts, calls } ∧
      (outlet.state = r.pipe.outlet.state ∨ r.pipe.outlet.state.canAdvance outlet.state = true) ∧
      (queueOpen = false ∧ outlet = r.pipe.outlet ∧ acts = r.acts ∧ calls = r.calls ∧
          r.acts = [] ∧ r.calls = [] ∨
        queueOpen = r.pipe.queueOpen ∧ (r.acts = [] → r.calls ≠ []) ∧
          5 * calls.length + actsLeft acts < 5 * r.calls.length + actsLeft r.acts) := by
  obtain ⟨pipe, calls, acts, stage, received⟩ := r
  cases acts with
  | nil =>
      cases calls with
      | nil => exact ⟨pipe.outlet, false, [], [], rfl, .inl rfl, .inl (by simp)⟩
      | cons c calls =>
          refine ⟨pipe.outlet, pipe.queueOpen, _, calls, rfl, .inl rfl, .inr ⟨rfl, by simp, ?_⟩⟩
          have hless := actsLeft_acts s t pipe.outlet.state c
          simp only [List.length_cons]
          omega
  | cons act acts =>
      cases act with
      | push op =>
          have hless : 5 * calls.length + actsLeft acts <
              5 * calls.length + actsLeft (.push op :: acts) := by simp [actsLeft]
          by_cases hdone : pipe.writer.done = true
          · exact ⟨pipe.outlet, pipe.queueOpen, acts, calls, by simp [sinkStep, Pipe.push, hdone],
              .inl rfl, .inr ⟨rfl, by simp, hless⟩⟩
          · exact ⟨pipe.outlet.push [op], pipe.queueOpen, acts, calls,
              by simp [sinkStep, Pipe.push, hdone], .inl rfl, .inr ⟨rfl, by simp, hless⟩⟩
      | advance next ops =>
          by_cases hadvance : pipe.outlet.state.canAdvance next = true
          · refine ⟨{ pipe.outlet with state := next }, pipe.queueOpen,
              ops.map SinkAct.push ++ acts, calls, by simp [sinkStep, hadvance], .inr hadvance,
              .inr ⟨rfl, by simp, ?_⟩⟩
            rw [actsLeft_pushes]
            simp only [actsLeft]
            omega
          · refine ⟨pipe.outlet, pipe.queueOpen, acts, calls, by simp [sinkStep, hadvance],
              .inl rfl, .inr ⟨rfl, by simp, ?_⟩⟩
            simp only [actsLeft]
            omega

theorem newHead_self (p : Pipe) : newHead p p = [] := by
  simp [newHead]

theorem writerStep_of_eq (r : Relay) (p : Pipe) (stage : WriterStage)
    (hstep : r.pipe.writerStep r.stage = (p, stage)) :
    r.writerStep = { r with pipe := p, stage, received := r.received ++ newHead r.pipe p } := by
  simp [writerStep, hstep]

theorem writerStep_of_blocked {r : Relay}
    (hstep : r.pipe.writerStep r.stage = (r.pipe, r.stage)) : r.writerStep = r := by
  rw [writerStep_of_eq r r.pipe r.stage hstep, newHead_self, List.append_nil]

end Relay

end GrpcContract
