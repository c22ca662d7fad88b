import GrpcContract.Proofs.Replies
import Mathlib.Data.List.Induction

/-!
# Statuses put into headers

A status that is put into headers is the one that is read from them: its code always, and its
message where it has one. Where it has none, the message that the headers told before stays. No
other header changes.
-/

namespace GrpcContract

open Text Text.Percent

/-! ### One status -/

namespace Headers

/-- The headers that do not tell a status. -/
def others (h : Headers) : List (String × List UInt8) :=
  h.entries.filter fun entry =>
    entry.1 != HeaderName.grpcStatus && entry.1 != HeaderName.grpcMessage

theorem others_insertText (h : Headers) {name : String} (value : String)
    (hname : name = HeaderName.grpcStatus ∨ name = HeaderName.grpcMessage) :
    (h.insertText name value).others = h.others := by
  have hkept : ∀ entry ∈ h.entries, (entry.1 != HeaderName.grpcStatus &&
      entry.1 != HeaderName.grpcMessage && entry.1 != name) =
        (entry.1 != HeaderName.grpcStatus && entry.1 != HeaderName.grpcMessage) := by
    rintro entry -
    rcases hname with rfl | rfl <;> grind
  simp only [others, insertText, insert, append, erase, List.filter_append, List.filter_filter]
  rw [List.filter_congr hkept]
  rcases hname with rfl | rfl <;> simp

theorem others_insertStatus (h : Headers) (s : Status) : (h.insertStatus s).others = h.others := by
  obtain ⟨code, message?⟩ := s
  cases message? with
  | none => exact others_insertText _ _ (.inl rfl)
  | some message =>
      exact (others_insertText _ _ (.inr rfl)).trans (others_insertText _ _ (.inl rfl))

theorem statusMessage?_insertStatus (h : Headers) (s : Status) :
    (h.insertStatus s).statusMessage? =
      match s.message? with
      | some message => (some message).filter (!·.isEmpty)
      | none => h.statusMessage? := by
  rw [statusMessage?, text?, Status.get?_grpcMessage_insertStatus]
  cases s.message? with
  | none => rfl
  | some message =>
      simp only [Option.bind_some]
      rw [headerText?_headerValue fun c hc => isShown_of_mem_encode hc, Option.map_some,
        decode_encode]

theorem status?_insertStatus (h : Headers) (s : Status) :
    (h.insertStatus s).status? = some ⟨s.code, (h.insertStatus s).statusMessage?⟩ :=
  status?_of_get? (Status.get?_grpcStatus_insertStatus h s)

/-! ### Statuses one after another -/

def insertStatuses (h : Headers) (ss : List Status) : Headers :=
  ss.foldl insertStatus h

theorem insertStatuses_concat (h : Headers) (ss : List Status) (s : Status) :
    h.insertStatuses (ss ++ [s]) = (h.insertStatuses ss).insertStatus s := by
  simp [insertStatuses]

theorem others_insertStatuses (h : Headers) (ss : List Status) :
    (h.insertStatuses ss).others = h.others := by
  induction ss using List.reverseRecOn with
  | nil => rfl
  | append_singleton ss s ih => rw [insertStatuses_concat, others_insertStatus, ih]

theorem statusMessage?_insertStatuses (h : Headers) (ss : List Status) :
    (h.insertStatuses ss).statusMessage? =
      match (ss.filterMap (·.message?)).getLast? with
      | some message => (some message).filter (!·.isEmpty)
      | none => h.statusMessage? := by
  induction ss using List.reverseRecOn with
  | nil => rfl
  | append_singleton ss s ih =>
      rw [insertStatuses_concat, statusMessage?_insertStatus, List.filterMap_append]
      cases hmessage : s.message? with
      | none => simpa [hmessage] using ih
      | some message => simp [hmessage]

/-- After a status was put into headers, they tell its code, and its message if it has one (an
empty one reads as none), or else the message that they told before; so they tell the status itself
exactly where it has a message or there was none to stay. All other headers are as before. After
several statuses the code is that of the last, and the message that of the last that had one. -/
theorem status?_after_insertStatus (h : Headers) (s : Status) (ss : List Status) :
    (h.insertStatus s).status? = some ⟨s.code,
        match s.message? with
        | some message => (some message).filter (!·.isEmpty)
        | none => h.statusMessage?⟩ ∧
      ((h.insertStatus s).status? = some s.withoutEmptyMessage ↔
        s.message? ≠ none ∨ h.statusMessage? = none) ∧
      (h.insertStatus s).others = h.others ∧
      (h.insertStatuses (ss ++ [s])).status? = some ⟨s.code,
        match ((ss ++ [s]).filterMap (·.message?)).getLast? with
        | some message => (some message).filter (!·.isEmpty)
        | none => h.statusMessage?⟩ ∧
      (h.insertStatuses (ss ++ [s])).others = h.others := by
  have hone := status?_insertStatus h s
  rw [statusMessage?_insertStatus] at hone
  refine ⟨hone, ?_, others_insertStatus h s, ?_, others_insertStatuses h (ss ++ [s])⟩
  · rw [hone]
    obtain ⟨code, message?⟩ := s
    cases message? <;> simp [Status.withoutEmptyMessage]
  · rw [insertStatuses_concat, status?_insertStatus, ← insertStatuses_concat,
      statusMessage?_insertStatuses]

end Headers

namespace Sample

def staleHeaders : Headers :=
  Headers.empty.insertText HeaderName.grpcMessage "old"

/-- A status without a message that is put into headers with one is read with that message. -/
theorem status?_insertStatus_stale :
    ¬ ∀ (h : Headers) (s : Status), (h.insertStatus s).status? = some s.withoutEmptyMessage ∧
      (h.insertStatus s).others = h.others := by
  intro hall
  have hread := (hall staleHeaders ⟨.notFound, none⟩).1
  rw [Headers.status?_insertStatus, Headers.statusMessage?_insertStatus] at hread
  have hstale : staleHeaders.statusMessage? = some "old" := by decide +kernel
  simp [hstale, Status.withoutEmptyMessage] at hread

end Sample

end GrpcContract
