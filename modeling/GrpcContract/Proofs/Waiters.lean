import GrpcContract.Call.State

/-!
# Tasks that wait for the signal

What one wake-up and one poll do to the tasks that wait: a wake-up goes to one task that is parked,
or it is kept, and a poll takes a task to its end or leaves it parked.
-/

namespace GrpcContract

/-! ### Counting where one entry changes -/

section Entries

variable {α : Type} {l : List α} {i k : Nat} {a : α}

theorem countP_set_of_getElem? (p : α → Bool) (hget : l[i]? = some a) (b : α) :
    (l.set i b).countP p + (p a).toNat = l.countP p + (p b).toNat := by
  obtain ⟨hi, rfl⟩ := List.getElem?_eq_some_iff.1 hget
  rw [List.countP_set hi]
  cases hold : p l[i] with
  | false => cases p b <;> simp
  | true =>
      have hpos : 0 < l.countP p := List.countP_pos_iff.2 ⟨l[i], List.getElem_mem hi, hold⟩
      cases p b <;> simp <;> omega

theorem count_set_of_getElem? [DecidableEq α] (hget : l[i]? = some a) (b x : α) :
    (l.set i b).count x + (a == x).toNat = l.count x + (b == x).toNat :=
  countP_set_of_getElem? (· == x) hget b

theorem countP_concat_of_false {p : α → Bool} (hp : p a = false) (l : List α) :
    (l ++ [a]).countP p = l.countP p := by
  rw [List.countP_append, List.countP_singleton, hp]
  rfl

theorem getElem?_set_of_ne (hget : l[i]? = some a) (hk : l[k]? ≠ some a) (b : α) :
    (l.set k b)[i]? = some a := by
  have hne : k ≠ i := by
    rintro rfl
    exact hk hget
  rw [List.getElem?_set_ne hne]
  exact hget

theorem getElem?_ite_set [DecidableEq α] (hget : l[i]? = some a) {old : α} (hold : old ≠ a)
    (b : α) : (if l[k]? = some old then l.set k b else l)[i]? = some a := by
  split
  next hk =>
    apply getElem?_set_of_ne hget
    intro heq
    exact hold (Option.some.inj (hk.symm.trans heq))
  next => exact hget

theorem mem_set_of_ne (hmem : a ∈ l) (hk : l[k]? ≠ some a) (b : α) : a ∈ l.set k b := by
  obtain ⟨i, hget⟩ := List.getElem?_of_mem hmem
  exact List.mem_of_getElem? (getElem?_set_of_ne hget hk b)

end Entries

/-- Whether a task has found the flag down and is not woken. -/
def Waiter.isUnserved : Waiter → Bool
  | .looked | .parked => true
  | _ => false

namespace Cancellation

variable {c : Cancellation} {i : Nat} {w : Waiter}

def unserved (c : Cancellation) : Nat := c.waiters.countP Waiter.isUnserved

theorem waiters_look (c : Cancellation) (i : Nat) :
    (c.look i).waiters =
      if c.waiters[i]? = some .fresh then
        c.waiters.set i (if c.fired then .finished else .looked)
      else c.waiters :=
  apply_ite waiters ..

theorem waiters_park (c : Cancellation) (i : Nat) :
    (c.park i).waiters =
      if c.waiters[i]? = some .looked then
        c.waiters.set i (if c.permit then .finished else .parked)
      else c.waiters :=
  apply_ite waiters ..

theorem waiters_resume (c : Cancellation) (i : Nat) :
    (c.resume i).waiters =
      if c.waiters[i]? = some .woken then c.waiters.set i .finished else c.waiters :=
  apply_ite waiters ..

/-! ### A wake-up -/

/-- Wakes a task that is parked, or keeps the wake-up. Any task that is parked may be the one: the
number chooses it. -/
def wake (c : Cancellation) (i : Nat) : Cancellation :=
  if c.waiters[i]? = some .parked then { c with waiters := c.waiters.set i .woken } else c.notify

theorem wakeFirst_eq_some {waiters woken : List Waiter} (hwake : wakeFirst waiters = some woken) :
    ∃ i, waiters[i]? = some .parked ∧ woken = waiters.set i .woken := by
  induction waiters generalizing woken with
  | nil => cases hwake
  | cons w waiters ih =>
      by_cases hparked : w = .parked
      · subst hparked
        rw [wakeFirst, Option.some.injEq] at hwake
        exact ⟨0, rfl, hwake.symm⟩
      · rw [wakeFirst] at hwake
        · obtain ⟨rest, hrest, rfl⟩ := Option.map_eq_some_iff.1 hwake
          obtain ⟨i, hget, rfl⟩ := ih hrest
          exact ⟨i + 1, hget, rfl⟩
        · exact hparked

theorem wakeFirst_eq_none {waiters : List Waiter} (hwake : wakeFirst waiters = none) :
    .parked ∉ waiters := by
  induction waiters with
  | nil => exact List.not_mem_nil
  | cons w waiters ih =>
      by_cases hparked : w = .parked
      · subst hparked
        cases hwake
      · rw [wakeFirst] at hwake
        · have hrest : .parked ∉ waiters := ih (Option.map_eq_none_iff.1 hwake)
          intro hmem
          rcases List.mem_cons.1 hmem with heq | hmem
          · exact hparked heq.symm
          · exact hrest hmem
        · exact hparked

theorem wake_cases (c : Cancellation) (i : Nat) :
    (∃ k, c.waiters[k]? = some .parked ∧
        c.wake i = { c with waiters := c.waiters.set k .woken }) ∨
      (.parked ∉ c.waiters ∧ c.wake i = { c with permit := true }) := by
  unfold wake
  split
  next hparked => exact .inl ⟨i, hparked, rfl⟩
  next =>
    unfold notify
    split
    next woken hwake =>
      obtain ⟨k, hget, rfl⟩ := wakeFirst_eq_some hwake
      exact .inl ⟨k, hget, rfl⟩
    next hwake => exact .inr ⟨wakeFirst_eq_none hwake, rfl⟩

/-! ### A poll -/

/-- Where a task gets to when it goes as far as it can. -/
def settled (c : Cancellation) : Waiter → Waiter
  | .fresh => if c.fired || c.permit then .finished else .parked
  | .looked => if c.permit then .finished else .parked
  | .parked => .parked
  | .woken | .finished => .finished

theorem settled_cases (c : Cancellation) (w : Waiter) :
    c.settled w = .parked ∨ c.settled w = .finished := by
  cases w <;> cases hfired : c.fired <;> cases hpermit : c.permit <;>
    simp [settled, hfired, hpermit]

theorem settled_eq_finished (hfired : c.fired = true) (hparked : w ≠ .parked)
    (hserved : c.permit = true ∨ w.isUnserved = false) : c.settled w = .finished := by
  cases w with
  | fresh => simp [settled, hfired]
  | looked =>
      rcases hserved with hpermit | hserved
      · simp [settled, hpermit]
      · cases hserved
  | parked => exact absurd rfl hparked
  | woken => rfl
  | finished => rfl

theorem waiters_poll (hget : c.waiters[i]? = some w) :
    (c.poll i).waiters = c.waiters.set i (c.settled w) := by
  obtain ⟨hi, hw⟩ := List.getElem?_eq_some_iff.1 hget
  have hself : c.waiters.set i w = c.waiters := by
    rw [← hw]
    exact List.set_getElem_self hi
  cases w with
  | fresh =>
      cases hfired : c.fired <;> cases hpermit : c.permit <;>
        simp [poll, look, park, resume, settled, hi, hw, hfired, hpermit]
  | looked => cases hpermit : c.permit <;> simp [poll, look, park, resume, settled, hi, hw, hpermit]
  | parked => simp [poll, look, park, resume, settled, hi, hw, hself]
  | woken => simp [poll, look, park, resume, settled, hi, hw]
  | finished => simp [poll, look, park, resume, settled, hi, hw, hself]

theorem getElem?_poll_self (hget : c.waiters[i]? = some w) :
    (c.poll i).waiters[i]? = some (c.settled w) := by
  rw [waiters_poll hget]
  exact List.getElem?_set_self (List.getElem?_eq_some_iff.1 hget).1

/-- The first tasks go as far as they can, the oldest first. -/
def pollFirst (c : Cancellation) (n : Nat) : Cancellation := (List.range n).foldl poll c

theorem pollFirst_succ (c : Cancellation) (n : Nat) :
    c.pollFirst (n + 1) = (c.pollFirst n).poll n := by
  rw [pollFirst, List.range_succ, List.foldl_append]
  rfl

theorem length_pollFirst (c : Cancellation) {n : Nat} (hn : n ≤ c.waiters.length) :
    (c.pollFirst n).waiters.length = c.waiters.length := by
  induction n with
  | zero => rfl
  | succ n ih =>
      have hlength := ih (Nat.le_of_succ_le hn)
      have hlt : n < (c.pollFirst n).waiters.length := hlength.symm ▸ hn
      rw [pollFirst_succ, waiters_poll (List.getElem?_eq_getElem hlt), List.length_set]
      exact hlength

/-- Whoever has had a turn is parked or has finished. -/
theorem getElem?_pollFirst (c : Cancellation) {n : Nat} (hn : n ≤ c.waiters.length) (hi : i < n) :
    (c.pollFirst n).waiters[i]? = some .parked ∨ (c.pollFirst n).waiters[i]? = some .finished := by
  induction n with
  | zero => exact absurd hi (Nat.not_lt_zero i)
  | succ n ih =>
      have hn' : n ≤ c.waiters.length := Nat.le_of_succ_le hn
      have hlt : n < (c.pollFirst n).waiters.length := (c.length_pollFirst hn').symm ▸ hn
      have hget := List.getElem?_eq_getElem hlt
      rw [pollFirst_succ]
      rcases Nat.lt_succ_iff_lt_or_eq.1 hi with hearlier | rfl
      · rw [waiters_poll hget, List.getElem?_set_ne (Nat.ne_of_gt hearlier)]
        exact ih hn' hearlier
      · rw [getElem?_poll_self hget]
        rcases settled_cases (c.pollFirst i) (c.pollFirst i).waiters[i] with hparked | hfinished
        · exact .inl (congrArg some hparked)
        · exact .inr (congrArg some hfinished)

theorem mem_waiters_pollAll (hmem : w ∈ c.pollAll.waiters) : w = .parked ∨ w = .finished := by
  obtain ⟨i, hi⟩ := List.getElem?_of_mem hmem
  have hlt : i < c.waiters.length := by
    rw [← c.length_pollFirst (Nat.le_refl _)]
    exact (List.getElem?_eq_some_iff.1 hi).1
  rcases c.getElem?_pollFirst (Nat.le_refl _) hlt with hparked | hfinished
  · exact .inl (Option.some.inj (hi.symm.trans hparked))
  · exact .inr (Option.some.inj (hi.symm.trans hfinished))

theorem unserved_pollAll (c : Cancellation) :
    c.pollAll.unserved = c.pollAll.waiters.count .parked := by
  apply List.countP_congr
  intro w hmem
  rcases mem_waiters_pollAll hmem with rfl | rfl <;> rfl

end Cancellation

end GrpcContract
