import GrpcContract.Proofs.Results
import GrpcContract.Rpc.Registry

/-!
# Methods by path

A registry holds every method under its own key, and a path means what is held under its key.
-/

namespace GrpcContract

/-- Whether every method is held under its own key. -/
def Registry.Keyed (r : Registry) : Prop :=
  ∀ entry ∈ r.entries, entry.1 = entry.2.key

namespace Registry

theorem Keyed.add {r : Registry} (hkeyed : r.Keyed) (m : Method) : (r.add m).Keyed := by
  intro entry hmem
  rcases List.mem_append.mp hmem with hold | hnew
  · exact hkeyed entry (List.mem_filter.mp hold).1
  · rw [List.mem_singleton.mp hnew]

/-- What holds of methods under their keys holds of all that a registry of them holds. -/
theorem forall_entries_ofMethods {P : String × Method → Prop} {ms : List Method}
    (hmethods : ∀ m ∈ ms, P (m.key, m)) : ∀ entry ∈ (ofMethods ms).entries, P entry := by
  have hfold : ∀ r : Registry, (∀ entry ∈ r.entries, P entry) →
      ∀ entry ∈ (ms.foldl add r).entries, P entry := by
    induction ms with
    | nil => exact fun r hr => hr
    | cons m ms ih =>
        refine fun r hr => ih (fun m' hm' => hmethods m' (by simp [hm'])) _ fun entry hmem => ?_
        rcases List.mem_append.mp hmem with hold | hnew
        · exact hr entry (List.mem_filter.mp hold).1
        · rw [List.mem_singleton.mp hnew]
          exact hmethods m (by simp)
  exact hfold empty fun entry hmem => absurd hmem List.not_mem_nil

theorem keyed_ofMethods (ms : List Method) : (ofMethods ms).Keyed :=
  forall_entries_ofMethods fun _ _ => rfl

theorem Keyed.key_of_get? {r : Registry} (hkeyed : r.Keyed) {key : String} {m : Method}
    (hget : r.get? key = some m) : key = m.key := by
  obtain ⟨before, after, hentries, -⟩ := List.lookup_eq_some_iff.mp hget
  exact hkeyed (key, m) (by simp [hentries])

end Registry

theorem path_of_methodKey {path key : String} (hkey : methodKey path = .ok key) :
    path = "/" ++ key := by
  unfold methodKey at hkey
  split at hkey
  · cases hkey
  · rename_i cs hpath
    obtain rfl := Except.ok.inj hkey
    rw [← String.toList_inj, hpath]
    simp
  · cases hkey

theorem methodKey_slash (key : String) : methodKey ("/" ++ key) = .ok key := by
  simp [methodKey]

namespace Registry

variable {r : Registry} {path : String}

theorem resolve_eq_ok_iff {m : Method} :
    r.resolve path = .ok m ↔ ∃ key, methodKey path = .ok key ∧ r.get? key = some m := by
  constructor
  · intro hresolve
    obtain ⟨key, hkey, hresolve⟩ := Except.ok_of_bind hresolve
    split at hresolve
    · rename_i hget
      obtain rfl := Except.ok.inj hresolve
      exact ⟨key, hkey, hget⟩
    · cases hresolve
  · rintro ⟨key, hkey, hget⟩
    simp only [resolve, hkey, bind, Except.bind, hget]
    rfl

theorem resolve_slash_eq_ok_iff {key : String} {m : Method} :
    r.resolve ("/" ++ key) = .ok m ↔ r.get? key = some m := by
  simp [resolve_eq_ok_iff, methodKey_slash]

theorem resolve_slash_of_none {key : String} (hget : r.get? key = none) :
    r.resolve ("/" ++ key) =
      .error (.state ("no gRPC method related to the given path: " ++ ("/" ++ key))) := by
  simp only [resolve, methodKey_slash, bind, Except.bind, hget]
  rfl

theorem argument_of_no_slash (r : Registry) (hpath : ¬ ∃ key, path = "/" ++ key) :
    ∃ message, r.resolve path = .error (.argument message) := by
  have hkey : ∃ message, methodKey path = .error (.argument message) := by
    unfold methodKey
    split
    · exact ⟨_, rfl⟩
    · rename_i cs hchars
      refine absurd ⟨String.ofList cs, ?_⟩ hpath
      rw [← String.toList_inj, hchars]
      simp
    · exact ⟨_, rfl⟩
  obtain ⟨message, hkey⟩ := hkey
  exact ⟨message, by simp only [resolve, hkey, bind, Except.bind]⟩

theorem ok_or_state_of_slash (r : Registry) (key : String) :
    (∃ m, r.resolve ("/" ++ key) = .ok m) ∨
      ∃ message, r.resolve ("/" ++ key) = .error (.state message) := by
  cases hget : r.get? key with
  | some m => exact .inl ⟨m, resolve_slash_eq_ok_iff.mpr hget⟩
  | none => exact .inr ⟨_, resolve_slash_of_none hget⟩

end Registry

end GrpcContract
