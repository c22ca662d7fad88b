import GrpcContract.Call.Pipe
import GrpcContract.Proofs.MessageTypes
import GrpcContract.Status.Headers

/-!
# Header lookups

What a header map answers after a value was put into it, and the headers that carry a status.
-/

namespace GrpcContract

namespace Headers

@[simp]
theorem get?_empty (name : String) : empty.get? name = none := rfl

theorem lookup_filter_ne {α : Type} (name name' : String) (entries : List (String × α)) :
    (entries.filter (·.1 != name)).lookup name' =
      if name' = name then none else entries.lookup name' := by
  induction entries with
  | nil => simp
  | cons entry entries ih =>
      obtain ⟨key, value⟩ := entry
      by_cases hkey : key = name
      · subst hkey
        rw [List.filter_cons_of_neg (by simp), ih, lookup_cons_ite]
        split <;> rfl
      · rw [List.filter_cons_of_pos (by simpa using hkey), lookup_cons_ite, lookup_cons_ite, ih]
        by_cases hname : name' = key
        · simp [hname, hkey]
        · simp [hname]

@[simp]
theorem get?_insert (h : Headers) (name name' : String) (value : List UInt8) :
    (h.insert name value).get? name' = if name' = name then some value else h.get? name' := by
  simp only [insert, append, erase, get?, List.lookup_append, lookup_filter_ne, lookup_cons_ite]
  split <;> simp

@[simp]
theorem get?_insertText (h : Headers) (name name' value : String) :
    (h.insertText name value).get? name' =
      if name' = name then some (headerValue value) else h.get? name' :=
  get?_insert h name name' (headerValue value)

theorem get?_override (h other : Headers) (name : String) :
    (h.override other).get? name = (other.get? name).or (h.get? name) := by
  have hfilter (entries : List (String × List UInt8)) :
      (entries.filter fun entry => !other.contains entry.1).lookup name =
        if other.contains name then none else entries.lookup name := by
    induction entries with
    | nil => simp
    | cons entry entries ih =>
        obtain ⟨key, value⟩ := entry
        cases hkey : other.contains key with
        | true =>
            rw [List.filter_cons_of_neg (by simp [hkey]), ih, lookup_cons_ite]
            by_cases hname : name = key
            · simp [hname, hkey]
            · simp [hname]
        | false =>
            rw [List.filter_cons_of_pos (by simp [hkey]), lookup_cons_ite, lookup_cons_ite, ih]
            by_cases hname : name = key
            · simp [hname, hkey]
            · simp [hname]
  have hcontains : other.contains name = (other.entries.lookup name).isSome := rfl
  simp only [override, get?, List.lookup_append, hfilter, hcontains]
  cases other.entries.lookup name <;> simp

end Headers

/-! ### Statuses -/

namespace Status

theorem get?_grpcStatus_insertStatus (h : Headers) (s : Status) :
    (h.insertStatus s).get? HeaderName.grpcStatus =
      some (headerValue (toString s.code.toNat)) := by
  obtain ⟨code, message?⟩ := s
  cases message? <;>
    simp [Headers.insertStatus, HeaderName.grpcStatus, HeaderName.grpcMessage]

theorem get?_grpcMessage_insertStatus (h : Headers) (s : Status) :
    (h.insertStatus s).get? HeaderName.grpcMessage =
      match s.message? with
      | some message => some (headerValue (Text.Percent.encode message))
      | none => h.get? HeaderName.grpcMessage := by
  obtain ⟨code, message?⟩ := s
  cases message? <;>
    simp [Headers.insertStatus, HeaderName.grpcStatus, HeaderName.grpcMessage]

theorem get?_insertStatus_of_ne (h : Headers) (s : Status) {name : String}
    (hstatus : name ≠ HeaderName.grpcStatus) (hmessage : name ≠ HeaderName.grpcMessage) :
    (h.insertStatus s).get? name = h.get? name := by
  obtain ⟨code, message?⟩ := s
  cases message? <;> simp [Headers.insertStatus, hstatus, hmessage]

end Status

namespace ResponseHead

theorem get?_ofHeaders (h : Headers) (ended : Bool) (name : String) :
    (ofHeaders h ended).headers.get? name =
      (h.get? name).or
        (if name = HeaderName.contentType then some (headerValue grpcContentType) else none) := by
  simp [ofHeaders, Headers.get?_override]

theorem contentType_ofStatus (s : Status) :
    (ofStatus s).headers.get? HeaderName.contentType = some (headerValue grpcContentType) := by
  rw [ofStatus, get?_ofHeaders, Status.headers, Status.get?_insertStatus_of_ne _ _ (by decide)
    (by decide)]
  rfl

theorem grpcStatus_ofStatus (s : Status) :
    (ofStatus s).headers.get? HeaderName.grpcStatus =
      some (headerValue (toString s.code.toNat)) := by
  rw [ofStatus, get?_ofHeaders, Status.headers, Status.get?_grpcStatus_insertStatus]
  rfl

end ResponseHead

end GrpcContract
