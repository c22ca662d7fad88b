/-!
What the tasks of one call share: how far its response has got, and a signal that the client has
gone away.
-/

namespace GrpcContract

/-- How far a response has got. It only moves forward; the last two states are final. -/
inductive StreamState
  | notStarted
  | headersSent
  | streaming
  | completed
  | cancelled
deriving DecidableEq, Inhabited

namespace StreamState

def rank : StreamState → Nat
  | notStarted => 0
  | headersSent => 1
  | streaming => 2
  | completed => 3
  | cancelled => 4

def isTerminal : StreamState → Bool
  | completed | cancelled => true
  | _ => false

def canAdvance (s next : StreamState) : Bool :=
  !s.isTerminal && s.rank < next.rank

def advance (s next : StreamState) : StreamState :=
  if s.canAdvance next then next else s

end StreamState

/-- A task that waits for the signal. It looks at the flag once, then parks until it is woken. -/
inductive Waiter
  | fresh
  | looked
  | parked
  | woken
  | finished
deriving DecidableEq, Inhabited

/-- The signal: a flag, the tasks that wait in the order of their arrival, and a wake-up that is
kept for the next task to park. -/
structure Cancellation where
  fired : Bool := false
  permit : Bool := false
  waiters : List Waiter := []
deriving DecidableEq, Inhabited

namespace Cancellation

/-- Raises the flag; answers whether it was down. -/
def raise (c : Cancellation) : Cancellation × Bool :=
  ({ c with fired := true }, !c.fired)

/-- The tasks after the one that parked first is woken. -/
def wakeFirst : List Waiter → Option (List Waiter)
  | [] => none
  | .parked :: rest => some (.woken :: rest)
  | w :: rest => (wakeFirst rest).map (w :: ·)

/-- Wakes the task that parked first, or keeps the wake-up. -/
def notify (c : Cancellation) : Cancellation :=
  match wakeFirst c.waiters with
  | some waiters => { c with waiters }
  | none => { c with permit := true }

/-- Gives the signal; only the first time does anything, and only then is the answer true. -/
def cancel (c : Cancellation) : Cancellation × Bool :=
  let (c, first) := c.raise
  (if first then c.notify else c, first)

def join (c : Cancellation) : Cancellation :=
  { c with waiters := c.waiters ++ [.fresh] }

def look (c : Cancellation) (i : Nat) : Cancellation :=
  if c.waiters[i]? = some .fresh then
    { c with waiters := c.waiters.set i (if c.fired then .finished else .looked) }
  else c

/-- A task that has looked takes the wake-up that is kept, or parks. -/
def park (c : Cancellation) (i : Nat) : Cancellation :=
  if c.waiters[i]? = some .looked then
    { c with permit := false, waiters := c.waiters.set i (if c.permit then .finished else .parked) }
  else c

def resume (c : Cancellation) (i : Nat) : Cancellation :=
  if c.waiters[i]? = some .woken then { c with waiters := c.waiters.set i .finished } else c

def poll (c : Cancellation) (i : Nat) : Cancellation :=
  ((c.look i).park i).resume i

/-- Every task goes as far as it can, the oldest first. -/
def pollAll (c : Cancellation) : Cancellation :=
  (List.range c.waiters.length).foldl poll c

end Cancellation

end GrpcContract
