import GrpcContract.Call.Adapter

/-!
# One consultation of the matcher

Whatever order the operations of an adapter come in, its matcher is consulted at most once and the
call is closed at most once. The inputs that come first are gathered; the first operation that
decides the call closes it, and nothing after that has any effect.
-/

namespace GrpcContract

inductive AdapterCall
  | message (m : Message)
  | inputComplete
  | fail (s : Status)

/-- Whether an operation ends the call, if it has not ended. -/
def AdapterCall.ends : AdapterCall → Bool
  | .message _ => false
  | .inputComplete | .fail _ => true

namespace Adapter

def perform (a : Adapter) : AdapterCall → Adapter × Effect
  | .message m => a.onMessage m
  | .inputComplete => a.onInputComplete
  | .fail s => a.fail s

def Effect.requests : Effect → List StubRequest
  | .ask request => [request]
  | _ => []

end Adapter

/-- An adapter with what its matcher was asked and what its client was given, in order. -/
structure Transcript where
  adapter : Adapter
  asked : List StubRequest := []
  given : List CallOutput := []

namespace Transcript

/-- An operation that is waited for. What the matcher answers may depend on what it was asked
before. -/
def next (f : List StubRequest → Matcher) (r : Transcript) (call : AdapterCall) : Transcript :=
  let (adapter, effect) := r.adapter.perform call
  { adapter
    asked := r.asked ++ effect.requests
    given := r.given ++ effect.outputs (f r.asked) adapter }

def run (f : List StubRequest → Matcher) (r : Transcript) (calls : List AdapterCall) :
    Transcript :=
  calls.foldl (next f) r

/-- The inputs of a stream that goes on. -/
def gathering (c : Codec) (m : Method) (inputs : List Message) : Transcript :=
  { adapter := { codec := c, method := m, inputs } }

theorem next_of_completed (f : List StubRequest → Matcher) {r : Transcript}
    (hcompleted : r.adapter.completed = true) (call : AdapterCall) : r.next f call = r := by
  have hidle : r.adapter.perform call = (r.adapter, .idle) := by
    cases call with
    | message m => simp [Adapter.perform, Adapter.onMessage, hcompleted]
    | inputComplete => simp [Adapter.perform, Adapter.onInputComplete, hcompleted]
    | fail s => simp [Adapter.perform, Adapter.fail, hcompleted]
  simp [next, hidle, Adapter.Effect.requests, Adapter.Effect.outputs]

theorem run_of_completed (f : List StubRequest → Matcher) {r : Transcript}
    (hcompleted : r.adapter.completed = true) (calls : List AdapterCall) : r.run f calls = r := by
  induction calls with
  | nil => rfl
  | cons call calls ih =>
      rw [run, List.foldl_cons, next_of_completed f hcompleted]
      exact ih

/-- Whether an operation decides a call that gathers its inputs. -/
def Decides (m : Method) (call : AdapterCall) : Prop :=
  call.ends = true ∨ m.shape.isClientStreaming = false

theorem next_message_of_streaming (f : List StubRequest → Matcher) (c : Codec) {m : Method}
    (hshape : m.shape.isClientStreaming = true) (inputs : List Message) (input : Message) :
    (gathering c m inputs).next f (.message input) = gathering c m (inputs ++ [input]) := by
  simp [next, gathering, Adapter.perform, Adapter.onMessage, Adapter.shape, hshape,
    Adapter.Effect.requests, Adapter.Effect.outputs]

/-- Outputs that close a call once, at their end; a call that fails has no messages. -/
def Closes (given : List CallOutput) : Prop :=
  ∃ ms s, given = ms.map .message ++ [.close s] ∧ (s.isOk = false → ms = [])

theorem closes_ofOutcome (outcome : Except Status (List Message)) :
    Closes (CallOutput.ofOutcome outcome) := by
  cases outcome with
  | ok ms => exact ⟨ms, .ok, rfl, fun hfail => absurd hfail (by decide)⟩
  | error s => exact ⟨[], s, rfl, fun _ => rfl⟩

/-- What the matcher is asked when an operation decides a call that has gathered some inputs. -/
def decision (c : Codec) (m : Method) (inputs : List Message) : AdapterCall → List StubRequest
  | .message input => [.ofMessage c m input]
  | .inputComplete => if m.shape.isClientStreaming then [.ofStream c m inputs] else []
  | .fail _ => []

theorem length_decision (c : Codec) (m : Method) (inputs : List Message) (call : AdapterCall) :
    (decision c m inputs call).length ≤ 1 := by
  unfold decision
  split
  · exact Nat.le_refl _
  · split <;> simp
  · exact Nat.zero_le _

theorem mem_decision_of_single (c : Codec) {m : Method}
    (hshape : m.shape.isClientStreaming = false) {inputs : List Message} {call : AdapterCall}
    {request : StubRequest} :
    request ∈ decision c m inputs call ↔
      ∃ input, call = .message input ∧ request = .ofMessage c m input := by
  cases call <;> simp [decision, hshape]

theorem mem_decision_of_stream (c : Codec) {m : Method}
    (hshape : m.shape.isClientStreaming = true) (inputs : List Message) {call : AdapterCall}
    (hends : call.ends = true) {request : StubRequest} :
    request ∈ decision c m inputs call ↔
      call = .inputComplete ∧ request = .ofStream c m inputs := by
  cases call with
  | message input => exact absurd hends (by simp [AdapterCall.ends])
  | _ => simp [decision, hshape]

/-- The operation that decides a call completes it, closes it, and asks about its input. -/
theorem next_of_decides (f : List StubRequest → Matcher) (c : Codec) {m : Method}
    {call : AdapterCall} (hdecides : Decides m call) (inputs : List Message) :
    let r := (gathering c m inputs).next f call
    r.adapter.completed = true ∧ r.asked = decision c m inputs call ∧ Closes r.given := by
  let a : Adapter := { codec := c, method := m, inputs, completed := true }
  have hclose (s : Status) : Closes [.close s] := ⟨[], s, rfl, fun _ => rfl⟩
  have hfail (s : Status) : Adapter.fail { codec := c, method := m, inputs } s =
      (a, .emit [.close s]) := rfl
  cases call with
  | message input =>
      have hshape := hdecides.resolve_left (by simp [AdapterCall.ends])
      have hperform : (gathering c m inputs).adapter.perform (.message input) =
          (a, .ask (.ofMessage c m input)) := by
        simp [a, gathering, Adapter.perform, Adapter.onMessage, Adapter.shape, hshape]
      simp only [next, hperform]
      exact ⟨rfl, rfl, closes_ofOutcome _⟩
  | inputComplete =>
      cases hshape : m.shape.isClientStreaming with
      | true =>
          have hperform : (gathering c m inputs).adapter.perform .inputComplete =
              ({ a with inputs := [] }, .ask (.ofStream c m inputs)) := by
            simp [a, gathering, Adapter.perform, Adapter.onInputComplete, Adapter.shape, hshape]
          simp only [next, hperform, decision, hshape]
          exact ⟨rfl, rfl, closes_ofOutcome _⟩
      | false =>
          have hperform : (gathering c m inputs).adapter.perform .inputComplete =
              (a, .emit [.close (.because .internal "Half-closed without a request")]) := by
            simp [gathering, Adapter.perform, Adapter.onInputComplete, Adapter.shape, hshape, hfail]
          simp only [next, hperform, decision, hshape]
          exact ⟨rfl, rfl, hclose _⟩
  | fail s =>
      have hperform : (gathering c m inputs).adapter.perform (.fail s) =
          (a, .emit [.close s]) := hfail s
      simp only [next, hperform]
      exact ⟨rfl, rfl, hclose s⟩

/-- Either all operations were inputs of a stream that goes on, or the first operation that decides
the call came after some of those. -/
theorem run_cases (f : List StubRequest → Matcher) (c : Codec) (m : Method)
    (calls : List AdapterCall) (inputs : List Message) :
    (∃ more, calls = more.map .message ∧ (m.shape.isClientStreaming = false → more = []) ∧
        (gathering c m inputs).run f calls = gathering c m (inputs ++ more)) ∨
      ∃ more call rest, calls = more.map .message ++ call :: rest ∧
        (m.shape.isClientStreaming = false → more = []) ∧ Decides m call ∧
        (gathering c m inputs).run f calls = (gathering c m (inputs ++ more)).next f call := by
  induction calls generalizing inputs with
  | nil => exact Or.inl ⟨[], rfl, fun _ => rfl, by simp [run]⟩
  | cons call calls ih =>
      have hrun : (gathering c m inputs).run f (call :: calls) =
          ((gathering c m inputs).next f call).run f calls := rfl
      -- An operation that decides the call completes it, and then the rest changes nothing.
      by_cases hdecides : Decides m call
      · refine Or.inr ⟨[], call, calls, rfl, fun _ => rfl, hdecides, ?_⟩
        rw [hrun, run_of_completed f (next_of_decides f c hdecides inputs).1, List.append_nil]
      · obtain ⟨hends, hstreaming⟩ := not_or.mp hdecides
        have hshape : m.shape.isClientStreaming = true := by simpa using hstreaming
        have hnotSingle : ¬ m.shape.isClientStreaming = false := hstreaming
        cases call with
        | inputComplete => exact absurd rfl hends
        | fail s => exact absurd rfl hends
        | message input =>
            rw [hrun, next_message_of_streaming f c hshape]
            rcases ih (inputs ++ [input]) with ⟨more, hcalls, -, hend⟩ |
              ⟨more, call, rest, hcalls, -, hdecides, hend⟩
            · refine Or.inl ⟨input :: more, by simp [hcalls], fun h => absurd h hnotSingle, ?_⟩
              rw [hend, List.append_assoc, List.singleton_append]
            · refine Or.inr ⟨input :: more, call, rest, by simp [hcalls],
                fun h => absurd h hnotSingle, hdecides, ?_⟩
              rw [hend, List.append_assoc, List.singleton_append]

end Transcript

theorem StubRequest.body_ofStream (c : Codec) (m : Method) (inputs : List Message) :
    (ofStream c m inputs).body.toList =
      '[' :: Json.commaSeparated (inputs.map fun input =>
        (c.encode (c.schema.messageType m.input) input).print) ++ [']'] := by
  simp [ofStream, withBody, Codec.encodeMany, Tree.render, Tree.print, Tree.printItems_eq_map,
    Function.comp_def]

namespace Transcript

/-- Two ways of splitting calls at the first that is no input agree. -/
theorem map_message_append_inj {ms ms' : List Message} {call call' : AdapterCall}
    {rest rest' : List AdapterCall} (hcall : call.ends = true) (hcall' : call'.ends = true)
    (heq : ms.map AdapterCall.message ++ call :: rest =
      ms'.map AdapterCall.message ++ call' :: rest') :
    ms = ms' ∧ call = call' ∧ rest = rest' := by
  induction ms generalizing ms' with
  | nil =>
      cases ms' with
      | nil => simpa using heq
      | cons m ms' =>
          obtain ⟨rfl, -⟩ := List.cons.inj heq
          exact absurd hcall (by simp [AdapterCall.ends])
  | cons m ms ih =>
      cases ms' with
      | nil =>
          obtain ⟨rfl, -⟩ := List.cons.inj heq
          exact absurd hcall' (by simp [AdapterCall.ends])
      | cons m' ms' =>
          obtain ⟨hm, hrest⟩ := List.cons.inj heq
          obtain ⟨rfl, hcalls⟩ := ih hrest
          exact ⟨by rw [AdapterCall.message.inj hm], hcalls⟩

/-- The matcher of a call is consulted at most once, and the call is closed at most once, after
all its messages, and exactly when it counts as completed. Where the client sends one message, the
matcher is asked about the message that comes first; where it sends a stream, about the messages
before the first end of the input, unless the call failed before. -/
theorem run_once (f : List StubRequest → Matcher) (c : Codec) (m : Method)
    (calls : List AdapterCall) :
    let r := Transcript.run f { adapter := { codec := c, method := m } } calls
    r.asked.length ≤ 1 ∧
      (r.given = [] ∨ ∃ ms s, r.given = ms.map .message ++ [.close s] ∧
        (s.isOk = false → ms = [])) ∧
      (r.adapter.completed = true ↔ ∃ s, .close s ∈ r.given) ∧
      ((∃ call ∈ calls, call.ends = true) → r.adapter.completed = true) ∧
      (m.shape.isClientStreaming = false → ∀ request, request ∈ r.asked ↔
        ∃ input rest, calls = .message input :: rest ∧ request = .ofMessage c m input ∧
          request.body = (c.encode (c.schema.messageType m.input) input).render) ∧
      (m.shape.isClientStreaming = true → ∀ request, request ∈ r.asked ↔
        ∃ inputs rest, calls = inputs.map .message ++ .inputComplete :: rest ∧
          request = .ofStream c m inputs ∧
          request.body.toList = '[' :: Json.commaSeparated (inputs.map fun input =>
            (c.encode (c.schema.messageType m.input) input).print) ++ [']']) := by
  intro r
  rcases run_cases f c m calls [] with ⟨inputs, hcalls, hsingle, hend⟩ |
    ⟨inputs, call, rest, hcalls, hsingle, hdecides, hend⟩
  · have hr : r = gathering c m inputs := hend
    have hnoEnd : ∀ call ∈ calls, call.ends = false := by
      intro call hcall
      rw [hcalls] at hcall
      obtain ⟨input, -, rfl⟩ := List.mem_map.mp hcall
      rfl
    rw [hr]
    refine ⟨by simp [gathering], Or.inl rfl, by simp [gathering], ?_, ?_, ?_⟩
    · rintro ⟨call, hcall, hends⟩
      rw [hnoEnd call hcall] at hends
      exact absurd hends (by decide)
    · intro hshape request
      have hnil : calls = [] := by rw [hcalls, hsingle hshape]; rfl
      simp [gathering, hnil]
    · intro hshape request
      constructor
      · intro hasked
        exact absurd hasked (by simp [gathering])
      · rintro ⟨inputs', rest, hsplit, -⟩
        have hends := hnoEnd .inputComplete (by rw [hsplit]; simp)
        exact absurd hends (by simp [AdapterCall.ends])
  · have hr : r = (gathering c m inputs).next f call := hend
    obtain ⟨hcompleted, hasked, ms, s, hgiven, hfailed⟩ := next_of_decides f c hdecides inputs
    rw [← hr] at hcompleted hasked hgiven
    refine ⟨?_, Or.inr ⟨ms, s, hgiven, hfailed⟩, ?_, fun _ => hcompleted, ?_, ?_⟩
    · rw [hasked]
      exact length_decision c m inputs call
    · exact ⟨fun _ => ⟨s, by rw [hgiven]; simp⟩, fun _ => hcompleted⟩
    · intro hshape request
      obtain rfl := hsingle hshape
      rw [hasked, hcalls, mem_decision_of_single c hshape]
      constructor
      · rintro ⟨input, rfl, rfl⟩
        exact ⟨input, rest, rfl, rfl, rfl⟩
      · rintro ⟨input, rest', hsplit, rfl, -⟩
        exact ⟨input, (List.cons.inj hsplit).1, rfl⟩
    · intro hshape request
      have hends := hdecides.resolve_right (by simp [hshape])
      rw [hasked, hcalls, mem_decision_of_stream c hshape inputs hends]
      constructor
      · rintro ⟨rfl, rfl⟩
        exact ⟨inputs, rest, rfl, rfl, StubRequest.body_ofStream c m inputs⟩
      · rintro ⟨inputs', rest', hsplit, rfl, -⟩
        obtain ⟨rfl, rfl, -⟩ := map_message_append_inj hends rfl hsplit
        exact ⟨rfl, rfl⟩

end Transcript

end GrpcContract
