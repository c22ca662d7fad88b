import GrpcContract.Proofs.Waiters

/-!
# Which waits the signal ends

Any number of tasks wait for the signal that a client has gone away, any number of tasks give it,
and their steps come in any order. One of those that give it finds the flag down, and it wakes one
task. A task that looks when the flag is up goes on at once. Of the tasks that looked before, one
is woken and all others stay parked for good, so the signal ends every wait exactly where at most
one task had looked before the flag was up.
-/

namespace GrpcContract

/-- How far a task has got with giving the signal. One that has raised the flag is to wake a task
before it returns; it returns whether the flag was down. -/
inductive Giver
  | fresh
  | raised
  | returned (first : Bool)
deriving DecidableEq

/-- A signal, and the tasks that give it. -/
structure Signalling where
  signal : Cancellation := {}
  givers : List Giver := []
  /-- How many tasks have looked while the flag was down. -/
  early : Nat := 0

namespace Signalling

/-- A step of a task that waits or of one that gives the signal. The task to be woken may be any
that is parked. -/
inductive Move
  | join
  | look (i : Nat)
  | park (i : Nat)
  | resume (i : Nat)
  | give
  | raise (j : Nat)
  | notify (j i : Nat)

def step (s : Signalling) : Move → Signalling
  | .join => { s with signal := s.signal.join }
  | .look i =>
    { s with
      signal := s.signal.look i
      early :=
        if s.signal.waiters[i]? = some .fresh ∧ s.signal.fired = false then s.early + 1
        else s.early }
  | .park i => { s with signal := s.signal.park i }
  | .resume i => { s with signal := s.signal.resume i }
  | .give => { s with givers := s.givers ++ [.fresh] }
  | .raise j =>
    if s.givers[j]? = some .fresh then
      let (signal, first) := s.signal.raise
      { s with signal, givers := s.givers.set j (if first then .raised else .returned false) }
    else s
  | .notify j i =>
    if s.givers[j]? = some .raised then
      { s with signal := s.signal.wake i, givers := s.givers.set j (.returned true) }
    else s

/-- Steps of any number of tasks in any order. Each time that a task waits or gives the signal is an
entry of its own; that a task does so one time after the other is one of the orders. -/
def run (s : Signalling) (moves : List Move) : Signalling :=
  moves.foldl step s

theorem run_append (s : Signalling) (before after : List Move) :
    s.run (before ++ after) = (s.run before).run after :=
  List.foldl_append

/-- With no step of anyone else in between, the steps of a task that gives the signal add up to
giving it at one go. -/
theorem run_give (s : Signalling) :
    let j := s.givers.length
    let after := s.run [.give, .raise j, .notify j s.signal.waiters.length]
    after.signal = s.signal.cancel.1 ∧
      after.givers = s.givers ++ [.returned s.signal.cancel.2] := by
  cases hfired : s.signal.fired with
  | false => simp [run, step, Cancellation.cancel, Cancellation.raise, Cancellation.wake, hfired]
  | true => simp [run, step, Cancellation.cancel, Cancellation.raise, hfired]

/-- The steps by which the first tasks go as far as they can. -/
def turns (n : Nat) : List Move :=
  (List.range n).flatMap fun i => [.look i, .park i, .resume i]

theorem signal_run_turns (s : Signalling) (n : Nat) :
    (s.run (turns n)).signal = s.signal.pollFirst n := by
  induction n with
  | zero => rfl
  | succ n ih =>
      have hturns : turns (n + 1) = turns n ++ [.look n, .park n, .resume n] := by
        simp [turns, List.range_succ]
      rw [hturns, run_append, Cancellation.pollFirst_succ, ← ih]
      rfl

/-- Every task that waits finishes the next time it is polled. -/
def Released (s : Signalling) : Prop :=
  ∀ i < s.signal.waiters.length, (s.signal.poll i).waiters[i]? = some .finished

instance (s : Signalling) : Decidable s.Released :=
  inferInstanceAs (Decidable (∀ i < s.signal.waiters.length, _))

variable {s : Signalling}

theorem not_released_of_parked (hparked : .parked ∈ s.signal.waiters) : ¬s.Released := by
  intro hreleased
  obtain ⟨i, hget⟩ := List.getElem?_of_mem hparked
  have hpoll := hreleased i (List.getElem?_eq_some_iff.1 hget).1
  rw [Cancellation.getElem?_poll_self hget] at hpoll
  cases hpoll

/-! ### The account of wake-ups -/

/-- What holds after every step. The flag is up exactly if one of those that give the signal has
found it down. The tasks that looked early are unserved but for one that the signal has taken; while
its wake-up is kept it has taken none, and nobody is parked. -/
structure Tallied (s : Signalling) : Prop where
  once : s.givers.count .raised + s.givers.count (.returned true) = s.signal.fired.toNat
  balance : s.signal.unserved + s.givers.count (.returned true) = s.early + s.signal.permit.toNat
  kept : s.signal.permit = true →
    s.givers.count (.returned true) = 1 ∧ s.signal.waiters.count .parked = 0

theorem tallied_start : ({} : Signalling).Tallied :=
  ⟨rfl, rfl, fun hpermit => absurd hpermit Bool.false_ne_true⟩

theorem Tallied.join (htally : s.Tallied) : (s.step .join).Tallied := by
  refine ⟨htally.once, ?_, ?_⟩
  · have hsame : s.signal.join.unserved = s.signal.unserved :=
      countP_concat_of_false rfl s.signal.waiters
    rw [step, hsame]
    exact htally.balance
  · intro hpermit
    obtain ⟨hgiven, hparked⟩ := htally.kept hpermit
    exact ⟨hgiven, (countP_concat_of_false rfl s.signal.waiters).trans hparked⟩

/-- A task that waits may take a step if what it counts changes by as much as the tasks that looked
early and the wake-up that is kept. -/
theorem Tallied.advance (htally : s.Tallied) {i : Nat} {w : Waiter}
    (hget : s.signal.waiters[i]? = some w) (w' : Waiter) (permit : Bool) (early : Nat)
    (hbalance : w'.isUnserved.toNat + s.early + s.signal.permit.toNat =
      w.isUnserved.toNat + early + permit.toNat)
    (hkept : permit = true → s.signal.permit = true ∧ w' ≠ .parked) :
    let signal := { s.signal with permit, waiters := s.signal.waiters.set i w' }
    Tallied { s with signal, early } := by
  refine ⟨htally.once, ?_, ?_⟩
  · have hcount := countP_set_of_getElem? Waiter.isUnserved hget w'
    have hbefore := htally.balance
    unfold Cancellation.unserved at hbefore ⊢
    dsimp only
    omega
  · intro hpermit
    obtain ⟨hbefore, hw'⟩ := hkept hpermit
    obtain ⟨hgiven, hparked⟩ := htally.kept hbefore
    have hcount := count_set_of_getElem? hget w' .parked
    rw [hparked, beq_false_of_ne hw'] at hcount
    exact ⟨hgiven, Nat.eq_zero_of_add_eq_zero_right hcount⟩

theorem Tallied.look (htally : s.Tallied) (i : Nat) : (s.step (.look i)).Tallied := by
  by_cases hfresh : s.signal.waiters[i]? = some .fresh
  · cases hfired : s.signal.fired with
    | false =>
        have hbalance : 1 + s.early + s.signal.permit.toNat =
            0 + (s.early + 1) + s.signal.permit.toNat := by omega
        have hnext := htally.advance hfresh .looked s.signal.permit (s.early + 1) hbalance
          fun hpermit => ⟨hpermit, by simp⟩
        simpa [step, Cancellation.look, hfresh, hfired] using hnext
    | true =>
        have hnext := htally.advance hfresh .finished s.signal.permit s.early rfl
          fun hpermit => ⟨hpermit, by simp⟩
        simpa [step, Cancellation.look, hfresh, hfired] using hnext
  · have hsame : s.step (.look i) = s := by simp [step, Cancellation.look, hfresh]
    rw [hsame]
    exact htally

theorem Tallied.park (htally : s.Tallied) (i : Nat) : (s.step (.park i)).Tallied := by
  by_cases hlooked : s.signal.waiters[i]? = some .looked
  · have hkept (w' : Waiter) (hpermit : false = true) :
        s.signal.permit = true ∧ w' ≠ .parked := absurd hpermit Bool.false_ne_true
    cases hpermit : s.signal.permit with
    | false =>
        have hbalance : 1 + s.early + s.signal.permit.toNat = 1 + s.early + 0 := by
          rw [hpermit]
          rfl
        have hnext := htally.advance hlooked .parked false s.early hbalance (hkept _)
        simpa [step, Cancellation.park, hlooked, hpermit] using hnext
    | true =>
        have hbalance : 0 + s.early + s.signal.permit.toNat = 1 + s.early + 0 := by
          rw [hpermit, Bool.toNat_true]
          omega
        have hnext := htally.advance hlooked .finished false s.early hbalance (hkept _)
        simpa [step, Cancellation.park, hlooked, hpermit] using hnext
  · have hsame : s.step (.park i) = s := by simp [step, Cancellation.park, hlooked]
    rw [hsame]
    exact htally

theorem Tallied.resume (htally : s.Tallied) (i : Nat) : (s.step (.resume i)).Tallied := by
  by_cases hwoken : s.signal.waiters[i]? = some .woken
  · have hnext := htally.advance hwoken .finished s.signal.permit s.early rfl
      fun hpermit => ⟨hpermit, by simp⟩
    simpa [step, Cancellation.resume, hwoken] using hnext
  · have hsame : s.step (.resume i) = s := by simp [step, Cancellation.resume, hwoken]
    rw [hsame]
    exact htally

/-- A task that gives the signal may take a step that wakes nobody. -/
theorem Tallied.quiet (htally : s.Tallied) {givers : List Giver} {fired : Bool}
    (honce : givers.count .raised + givers.count (.returned true) = fired.toNat)
    (hgiven : givers.count (.returned true) = s.givers.count (.returned true)) :
    Tallied { s with signal := { s.signal with fired }, givers } := by
  refine ⟨honce, ?_, ?_⟩
  · rw [hgiven]
    exact htally.balance
  · rw [hgiven]
    exact htally.kept

theorem Tallied.give (htally : s.Tallied) : (s.step .give).Tallied := by
  have hsame (g : Giver) (hg : (Giver.fresh == g) = false) :
      (s.givers ++ [Giver.fresh]).count g = s.givers.count g :=
    countP_concat_of_false (p := (· == g)) hg s.givers
  have hraised := hsame .raised rfl
  have hgiven := hsame (.returned true) rfl
  apply htally.quiet ?_ hgiven
  rw [hraised, hgiven]
  exact htally.once

theorem Tallied.raise (htally : s.Tallied) (j : Nat) : (s.step (.raise j)).Tallied := by
  by_cases hfresh : s.givers[j]? = some .fresh
  · have honce := htally.once
    rw [step, if_pos hfresh]
    cases hfired : s.signal.fired with
    | false =>
        have hraised : (s.givers.set j .raised).count .raised = s.givers.count .raised + 1 :=
          count_set_of_getElem? hfresh .raised .raised
        have hgiven : (s.givers.set j .raised).count (.returned true) =
            s.givers.count (.returned true) :=
          count_set_of_getElem? hfresh .raised (.returned true)
        simp only [Cancellation.raise, hfired, Bool.not_false, ↓reduceIte]
        apply htally.quiet ?_ hgiven
        rw [hraised, hgiven, Nat.add_right_comm, honce, hfired]
        rfl
    | true =>
        have hraised : (s.givers.set j (.returned false)).count .raised = s.givers.count .raised :=
          count_set_of_getElem? hfresh (.returned false) .raised
        have hgiven : (s.givers.set j (.returned false)).count (.returned true) =
            s.givers.count (.returned true) :=
          count_set_of_getElem? hfresh (.returned false) (.returned true)
        simp only [Cancellation.raise, hfired, Bool.not_true, Bool.false_eq_true, ↓reduceIte]
        apply htally.quiet ?_ hgiven
        rw [hraised, hgiven, honce, hfired]
  · have hsame : s.step (.raise j) = s := if_neg hfresh
    rw [hsame]
    exact htally

/-- As long as whoever raised the flag has not woken a task, no wake-up is kept. -/
theorem Tallied.of_raised (htally : s.Tallied) (hraised : .raised ∈ s.givers) :
    s.givers.count .raised = 1 ∧ s.givers.count (.returned true) = 0 ∧
      s.signal.fired = true ∧ s.signal.permit = false := by
  have hpos : 0 < s.givers.count .raised := List.count_pos_iff.2 hraised
  have honce := htally.once
  have hle : s.signal.fired.toNat ≤ 1 := Bool.toNat_le s.signal.fired
  have hgiven : s.givers.count (.returned true) = 0 := by omega
  have hone : s.givers.count .raised = 1 := by omega
  refine ⟨hone, hgiven, ?_, ?_⟩
  · rw [hone, hgiven] at honce
    exact Bool.toNat_eq_one.1 honce.symm
  · cases hpermit : s.signal.permit with
    | false => rfl
    | true => exact absurd ((htally.kept hpermit).1.symm.trans hgiven) Nat.one_ne_zero

theorem Tallied.notify (htally : s.Tallied) (j i : Nat) : (s.step (.notify j i)).Tallied := by
  by_cases hraised : s.givers[j]? = some .raised
  · obtain ⟨hone, hgiven, hfired, hpermit⟩ := htally.of_raised (List.mem_of_getElem? hraised)
    have hless : (s.givers.set j (.returned true)).count .raised + 1 = s.givers.count .raised :=
      count_set_of_getElem? hraised (.returned true) .raised
    have hmore : (s.givers.set j (.returned true)).count (.returned true) =
        s.givers.count (.returned true) + 1 :=
      count_set_of_getElem? hraised (.returned true) (.returned true)
    have hbalance := htally.balance
    rw [hgiven, hpermit] at hbalance
    rw [hgiven] at hmore
    have honce : (s.givers.set j (.returned true)).count .raised +
        (s.givers.set j (.returned true)).count (.returned true) = s.signal.fired.toNat := by
      rw [hmore, hless, hone, hfired]
      rfl
    rw [step, if_pos hraised]
    -- The signal takes a task that is parked, or it is kept for one that has still to park.
    rcases s.signal.wake_cases i with ⟨k, hparked, hwake⟩ | ⟨hnone, hwake⟩
    · have hcount : (s.signal.waiters.set k .woken).countP Waiter.isUnserved + 1 =
          s.signal.waiters.countP Waiter.isUnserved :=
        countP_set_of_getElem? Waiter.isUnserved hparked .woken
      rw [hwake]
      refine ⟨honce, ?_, fun hkept => absurd (hpermit.symm.trans hkept) Bool.false_ne_true⟩
      rw [hmore, hpermit, ← hbalance]
      exact hcount
    · rw [hwake]
      refine ⟨honce, ?_, fun _ => ⟨hmore, List.count_eq_zero.2 hnone⟩⟩
      rw [hmore]
      exact congrArg (· + 1) hbalance
  · have hsame : s.step (.notify j i) = s := if_neg hraised
    rw [hsame]
    exact htally

theorem Tallied.step (htally : s.Tallied) (move : Move) : (s.step move).Tallied := by
  cases move with
  | join => exact htally.join
  | look i => exact htally.look i
  | park i => exact htally.park i
  | resume i => exact htally.resume i
  | give => exact htally.give
  | raise j => exact htally.raise j
  | notify j i => exact htally.notify j i

theorem Tallied.run (htally : s.Tallied) (moves : List Move) : (s.run moves).Tallied := by
  induction moves generalizing s with
  | nil => exact htally
  | cons move moves ih => exact ih (htally.step move)

/-! ### After the signal -/

theorem Tallied.of_given (htally : s.Tallied) (hgiven : .returned true ∈ s.givers) :
    .raised ∉ s.givers ∧ s.signal.fired = true ∧
      s.signal.unserved + 1 = s.early + s.signal.permit.toNat := by
  have hpos : 0 < s.givers.count (.returned true) := List.count_pos_iff.2 hgiven
  have honce := htally.once
  have hle : s.signal.fired.toNat ≤ 1 := Bool.toNat_le s.signal.fired
  have hone : s.givers.count (.returned true) = 1 := by omega
  have hnone : s.givers.count .raised = 0 := by omega
  refine ⟨List.count_eq_zero.1 hnone, ?_, ?_⟩
  · rw [hnone, hone] at honce
    exact Bool.toNat_eq_one.1 honce.symm
  · rw [← htally.balance, hone]

/-- What no step undoes when the signal has been given. -/
structure Lasts (before after : Signalling) : Prop where
  given : .returned true ∈ after.givers
  early : after.early = before.early
  parked : ∀ i : Nat, before.signal.waiters[i]? = some .parked →
    after.signal.waiters[i]? = some .parked

theorem Tallied.lasts_step (htally : s.Tallied) (hgiven : .returned true ∈ s.givers)
    (move : Move) : Lasts s (s.step move) := by
  obtain ⟨hnone, hfired, -⟩ := htally.of_given hgiven
  cases move with
  | join =>
      refine ⟨hgiven, rfl, ?_⟩
      intro i hparked
      have hi : i < s.signal.waiters.length := (List.getElem?_eq_some_iff.1 hparked).1
      exact (List.getElem?_append_left hi).trans hparked
  | look i =>
      refine ⟨hgiven, by simp [Signalling.step, hfired], ?_⟩
      intro k hparked
      rw [Signalling.step, Cancellation.waiters_look]
      exact getElem?_ite_set hparked (by simp) _
  | park i =>
      refine ⟨hgiven, rfl, ?_⟩
      intro k hparked
      rw [Signalling.step, Cancellation.waiters_park]
      exact getElem?_ite_set hparked (by simp) _
  | resume i =>
      refine ⟨hgiven, rfl, ?_⟩
      intro k hparked
      rw [Signalling.step, Cancellation.waiters_resume]
      exact getElem?_ite_set hparked (by simp) _
  | give => exact ⟨List.mem_append_left _ hgiven, rfl, fun i => id⟩
  | raise j =>
      simp only [Signalling.step]
      split
      next hfresh => exact ⟨mem_set_of_ne hgiven (by simp [hfresh]) _, rfl, fun i => id⟩
      next => exact ⟨hgiven, rfl, fun i => id⟩
  | notify j i =>
      -- Whoever raised the flag has returned, and nobody else wakes a task.
      have hsame : s.step (.notify j i) = s :=
        if_neg fun hraised => hnone (List.mem_of_getElem? hraised)
      rw [hsame]
      exact ⟨hgiven, rfl, fun i => id⟩

theorem Tallied.lasts_run (htally : s.Tallied) (hgiven : .returned true ∈ s.givers)
    (moves : List Move) : Lasts s (s.run moves) := by
  induction moves generalizing s with
  | nil => exact ⟨hgiven, rfl, fun i => id⟩
  | cons move moves ih =>
      have hstep := htally.lasts_step hgiven move
      have hrest := ih (htally.step move) hstep.given
      refine ⟨hrest.given, hrest.early.trans hstep.early, ?_⟩
      intro i hparked
      exact hrest.parked i (hstep.parked i hparked)

/-- Where at most one task has looked early, the signal is enough. -/
theorem Tallied.released (htally : s.Tallied) (hgiven : .returned true ∈ s.givers)
    (hearly : s.early ≤ 1) : s.Released := by
  obtain ⟨-, hfired, hbalance⟩ := htally.of_given hgiven
  intro i hi
  have hmem : s.signal.waiters[i] ∈ s.signal.waiters := List.getElem_mem hi
  rw [Cancellation.getElem?_poll_self (List.getElem?_eq_getElem hi)]
  apply congrArg some
  cases hpermit : s.signal.permit with
  | false =>
      have hnone : s.signal.unserved = 0 := by
        rw [hpermit, Bool.toNat_false] at hbalance
        omega
      have hserved : s.signal.waiters[i].isUnserved = false :=
        Bool.eq_false_iff.2 (List.countP_eq_zero.1 hnone _ hmem)
      apply Cancellation.settled_eq_finished hfired ?_ (.inr hserved)
      intro hparked
      rw [hparked] at hserved
      cases hserved
  | true =>
      have hnone : .parked ∉ s.signal.waiters := List.count_eq_zero.1 (htally.kept hpermit).2
      apply Cancellation.settled_eq_finished hfired ?_ (.inl hpermit)
      intro hparked
      exact hnone (hparked ▸ hmem)

/-- When every task has gone as far as it can, the signal has taken one of those that looked early,
and the others are parked. -/
theorem Tallied.count_pollAll (htally : s.Tallied) (hgiven : .returned true ∈ s.givers) :
    s.signal.pollAll.waiters.count .parked = s.early - 1 := by
  have hafter : (s.run (turns s.signal.waiters.length)).signal = s.signal.pollAll :=
    signal_run_turns s _
  have hlasts := htally.lasts_run hgiven (turns s.signal.waiters.length)
  have htally' := htally.run (turns s.signal.waiters.length)
  obtain ⟨-, -, hbalance⟩ := htally'.of_given hlasts.given
  have hkept := htally'.kept
  rw [hafter, hlasts.early, Cancellation.unserved_pollAll] at hbalance
  rw [hafter] at hkept
  cases hpermit : s.signal.pollAll.permit with
  | false =>
      rw [hpermit, Bool.toNat_false] at hbalance
      omega
  | true =>
      have hnone := (hkept hpermit).2
      rw [hpermit, Bool.toNat_true] at hbalance
      omega

theorem Tallied.mem_parked_turns (htally : s.Tallied) (hgiven : .returned true ∈ s.givers)
    (hearly : 1 < s.early) :
    .parked ∈ (s.run (turns s.signal.waiters.length)).signal.waiters := by
  have hpos : 0 < s.signal.pollAll.waiters.count .parked := by
    rw [htally.count_pollAll hgiven]
    exact Nat.sub_pos_of_lt hearly
  rw [signal_run_turns]
  exact List.count_pos_iff.1 hpos

/-- At most one of those that give the signal finds the flag down. When it has returned, all who
wait are released, now and later, exactly where at most one task had looked before the flag was up.
In any case the signal takes one of these tasks. The others are parked when everyone has gone as far
as it can, and a task that is parked then stays so, whatever happens. -/
theorem released_iff_early_le_one (moves : List Move) :
    let run := ({} : Signalling).run
    (run moves).givers.count (.returned true) ≤ 1 ∧
      (.returned true ∈ (run moves).givers →
        ((∀ later, (run (moves ++ later)).Released) ↔ (run moves).early ≤ 1) ∧
        (run moves).signal.pollAll.waiters.count .parked = (run moves).early - 1 ∧
        (∀ w ∈ (run moves).signal.pollAll.waiters, w = .parked ∨ w = .finished) ∧
        ∀ (later : List Move) (i : Nat), (run moves).signal.waiters[i]? = some .parked →
          (run (moves ++ later)).signal.waiters[i]? = some .parked) := by
  intro run
  have htally : (run moves).Tallied := tallied_start.run moves
  have happend (later : List Move) : run (moves ++ later) = (run moves).run later :=
    run_append _ moves later
  constructor
  · have honce := htally.once
    have hle : (run moves).signal.fired.toNat ≤ 1 := Bool.toNat_le _
    omega
  intro hgiven
  refine ⟨⟨?_, ?_⟩, htally.count_pollAll hgiven, ?_, ?_⟩
  · intro hreleased
    apply Nat.le_of_not_lt
    intro hearly
    have hturns := hreleased (turns (run moves).signal.waiters.length)
    rw [happend] at hturns
    exact not_released_of_parked (htally.mem_parked_turns hgiven hearly) hturns
  · intro hearly later
    have hlasts := htally.lasts_run hgiven later
    rw [happend]
    exact (htally.run later).released hlasts.given (hlasts.early ▸ hearly)
  · intro w hmem
    exact Cancellation.mem_waiters_pollAll hmem
  · intro later i hparked
    rw [happend]
    exact (htally.lasts_run hgiven later).parked i hparked

end Signalling

namespace Sample

open Signalling

/-- Three tasks look before the flag is up, and a fourth one comes later. -/
def crowdedMoves : List Move :=
  [.join, .join, .join, .look 0, .look 1, .park 1, .look 2, .give, .give, .raise 1, .park 0,
    .raise 0, .notify 1 1, .join]

/-- One task has looked and has not parked when the signal is given. -/
def loneMoves : List Move := [.join, .look 0, .give, .raise 0, .notify 0 0, .join]

theorem released_lone_not_crowded :
    let run := ({} : Signalling).run
    .returned true ∈ (run loneMoves).givers ∧ (∀ later, (run (loneMoves ++ later)).Released) ∧
      .returned true ∈ (run crowdedMoves).givers ∧
      (run crowdedMoves).signal.pollAll.waiters.count .parked = 2 ∧
      (run crowdedMoves).signal.waiters[0]? = some .parked ∧
      ∀ later, (run (crowdedMoves ++ later)).signal.waiters[0]? = some .parked := by
  intro run
  have hlone : .returned true ∈ (run loneMoves).givers := by decide
  have hcrowded : .returned true ∈ (run crowdedMoves).givers := by decide
  have hparked : (run crowdedMoves).signal.waiters[0]? = some .parked := by decide
  obtain ⟨hreleased, -⟩ := (released_iff_early_le_one loneMoves).2 hlone
  obtain ⟨-, hcount, -, hlasts⟩ := (released_iff_early_le_one crowdedMoves).2 hcrowded
  refine ⟨hlone, hreleased.2 (by decide), hcrowded, hcount, hparked, ?_⟩
  intro later
  exact hlasts later 0 hparked

/-- Two tasks park, and the signal wakes one of them. -/
theorem not_released_pair :
    ¬∀ moves : List Move,
      (({} : Signalling).run moves).givers.count (.returned true) ≤ 1 ∧
        (.returned true ∈ (({} : Signalling).run moves).givers →
          (({} : Signalling).run moves).Released) := by
  intro hall
  have hreleased := (hall [.join, .look 0, .park 0, .join, .look 1, .park 1, .give, .raise 0,
    .notify 0 0]).2 (by decide)
  exact absurd hreleased (by decide)

end Sample

end GrpcContract
