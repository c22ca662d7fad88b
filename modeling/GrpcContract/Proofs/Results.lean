import Mathlib.Data.List.Forall2

/-!
# Results of steps that may fail

Where a result was reached, each step before it had one; where none was, one of the steps failed.
Two steps agree where both fail, or both have results that are related.
-/

namespace GrpcContract

variable {ε ε' α α' β β' : Type}

theorem Except.ok_of_bind {x : Except ε α} {f : α → Except ε β} {b : β}
    (hbind : x >>= f = .ok b) : ∃ a, x = .ok a ∧ f a = .ok b := by
  cases x with
  | error e => cases hbind
  | ok a => exact ⟨a, rfl, hbind⟩

theorem Except.error_of_bind {x : Except ε α} {f : α → Except ε β} {e : ε}
    (hbind : x >>= f = .error e) : x = .error e ∨ ∃ a, x = .ok a ∧ f a = .error e := by
  cases x with
  | error e' =>
      obtain rfl := Except.error.inj hbind
      exact Or.inl rfl
  | ok a => exact Or.inr ⟨a, rfl, hbind⟩

theorem Except.exists_ok_bind_iff {x : Except ε α} {f : α → Except ε β} :
    (∃ b, x >>= f = .ok b) ↔ ∃ a, x = .ok a ∧ ∃ b, f a = .ok b := by
  constructor
  · rintro ⟨b, hbind⟩
    obtain ⟨a, hx, hf⟩ := ok_of_bind hbind
    exact ⟨a, hx, b, hf⟩
  · rintro ⟨a, rfl, hf⟩
    exact hf

theorem Except.ok_of_map {x : Except ε α} {g : α → β} {b : β} (hmap : x.map g = .ok b) :
    ∃ a, x = .ok a ∧ g a = b := by
  cases x with
  | error e => cases hmap
  | ok a => exact ⟨a, rfl, Except.ok.inj hmap⟩

theorem Except.ok_of_mapError {x : Except ε α} {g : ε → ε'} {a : α}
    (hmap : x.mapError g = .ok a) : x = .ok a := by
  cases x with
  | error e => cases hmap
  | ok b => exact congrArg Except.ok (Except.ok.inj hmap)

theorem Except.guarded_eq_ok_iff {p : Prop} [Decidable p] {e : ε} {x : Except ε α} {a : α} :
    (if p then .error e else x) = .ok a ↔ ¬p ∧ x = .ok a := by
  by_cases hp : p <;> simp [hp]

/-! ### Steps for each item of a list -/

theorem mapM_congr {m : Type → Type} [Monad m] [LawfulMonad m] {f g : α → m β} {l : List α}
    (hl : ∀ a ∈ l, f a = g a) : l.mapM f = l.mapM g := by
  induction l with
  | nil => rfl
  | cons a l ih =>
      rw [List.mapM_cons, List.mapM_cons, hl a (by simp), ih fun b hb => hl b (by simp [hb])]

theorem mapM_map_ok {g : β → Except ε β'} {f : α → β} {h : α → β'} {l : List α}
    (hl : ∀ a ∈ l, g (f a) = .ok (h a)) : (l.map f).mapM g = .ok (l.map h) := by
  rw [List.mapM_map]
  exact (mapM_congr hl).trans List.mapM_pure

theorem mapM_some {g : α → Option β} {h : α → β} {l : List α} (hl : ∀ a ∈ l, g a = some (h a)) :
    l.mapM g = some (l.map h) :=
  (mapM_congr hl).trans List.mapM_pure

theorem exists_mapM_forall₂ {f : α → Except ε β} {R : α → β → Prop} {l : List α}
    (hl : ∀ a ∈ l, ∃ b, f a = .ok b ∧ R a b) :
    ∃ bs, l.mapM f = .ok bs ∧ List.Forall₂ R l bs := by
  induction l with
  | nil => exact ⟨[], rfl, .nil⟩
  | cons a l ih =>
      obtain ⟨b, hb, hab⟩ := hl a (by simp)
      obtain ⟨bs, hbs, hall⟩ := ih fun a ha => hl a (by simp [ha])
      refine ⟨b :: bs, ?_, .cons hab hall⟩
      rw [List.mapM_cons, hb, hbs]
      rfl

/-! ### Two steps that go alike -/

/-- Whether two steps both fail, or both have results and these are related. -/
inductive Except.Agrees (R : α → β → Prop) : Except ε α → Except ε' β → Prop
  | ok {a : α} {b : β} (hresult : R a b) : Except.Agrees R (.ok a) (.ok b)
  | error (e : ε) (e' : ε') : Except.Agrees R (.error e) (.error e')

namespace Except.Agrees

variable {R : α → β → Prop} {S : α' → β' → Prop} {x : Except ε α} {y : Except ε' β}

theorem exists_ok_right (hagrees : Except.Agrees R x y) {a : α} (hx : x = .ok a) :
    ∃ b, y = .ok b ∧ R a b := by
  subst hx
  cases hagrees with
  | ok hresult => exact ⟨_, rfl, hresult⟩

theorem exists_ok_left (hagrees : Except.Agrees R x y) {b : β} (hy : y = .ok b) :
    ∃ a, x = .ok a ∧ R a b := by
  subst hy
  cases hagrees with
  | ok hresult => exact ⟨_, rfl, hresult⟩

theorem of_exists_ok (hboth : (∃ a, x = .ok a) ↔ ∃ b, y = .ok b)
    (hresults : ∀ a b, x = .ok a → y = .ok b → R a b) : Except.Agrees R x y := by
  cases x with
  | ok a =>
      obtain ⟨b, rfl⟩ := hboth.mp ⟨a, rfl⟩
      exact .ok (hresults a b rfl rfl)
  | error e =>
      cases y with
      | ok b =>
          obtain ⟨a, hx⟩ := hboth.mpr ⟨b, rfl⟩
          cases hx
      | error e' => exact .error e e'

theorem map {f : α → α'} {g : β → β'} (hagrees : Except.Agrees R x y)
    (hresults : ∀ a b, R a b → S (f a) (g b)) : Except.Agrees S (x.map f) (y.map g) := by
  cases hagrees with
  | ok hresult => exact .ok (hresults _ _ hresult)
  | error e e' => exact .error e e'

theorem bind {f : α → Except ε α'} {g : β → Except ε' β'} (hagrees : Except.Agrees R x y)
    (hnext : ∀ a b, R a b → Except.Agrees S (f a) (g b)) : Except.Agrees S (x >>= f) (y >>= g) := by
  cases hagrees with
  | ok hresult => exact hnext _ _ hresult
  | error e e' => exact .error e e'

end Except.Agrees

/-! ### A step that another one stops -/

/-- Whether one step goes the way of another wherever that does not fail in a certain way. -/
def Except.Follows (P : ε → Prop) (x y : Except ε α) : Prop :=
  x = y ∨ ∃ e, P e ∧ y = .error e

namespace Except.Follows

variable {P : ε → Prop} {Q : ε' → Prop} {x y : Except ε α}

theorem refl (P : ε → Prop) (x : Except ε α) : Except.Follows P x x :=
  .inl rfl

theorem of_error {e : ε} (he : P e) : Except.Follows P x (.error e) :=
  .inr ⟨e, he, rfl⟩

theorem ok_of_ok (hfollows : Except.Follows P x y) {a : α} (hy : y = .ok a) : x = .ok a := by
  rcases hfollows with rfl | ⟨e, -, rfl⟩
  · exact hy
  · cases hy

theorem map (hfollows : Except.Follows P x y) (f : α → β) :
    Except.Follows P (x.map f) (y.map f) := by
  rcases hfollows with rfl | ⟨e, he, rfl⟩
  · exact refl P _
  · exact of_error he

theorem mapError (hfollows : Except.Follows P x y) {g : ε → ε'} (hg : ∀ e, P e → Q (g e)) :
    Except.Follows Q (x.mapError g) (y.mapError g) := by
  rcases hfollows with rfl | ⟨e, he, rfl⟩
  · exact refl Q _
  · exact of_error (hg e he)

theorem bind {f g : α → Except ε β} (hfollows : Except.Follows P x y)
    (hnext : ∀ a, Except.Follows P (f a) (g a)) : Except.Follows P (x >>= f) (y >>= g) := by
  rcases hfollows with rfl | ⟨e, he, rfl⟩
  · cases x with
    | ok a => exact hnext a
    | error e => exact refl P _
  · exact of_error he

theorem mapM {f g : α → Except ε β} (hitem : ∀ a, Except.Follows P (f a) (g a)) (l : List α) :
    Except.Follows P (l.mapM f) (l.mapM g) := by
  induction l with
  | nil => exact refl P _
  | cons a l ih =>
      simp only [List.mapM_cons]
      exact (hitem a).bind fun b => ih.bind fun bs => refl P _

end Except.Follows

end GrpcContract
