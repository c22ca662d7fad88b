import GrpcContract.Proofs.Frames
import GrpcContract.Sample.Cases
import Mathlib

/-!
# Chunks of a stream

What a deframer makes of a stream depends on the bytes of the stream, not on how they are cut into
chunks. The bytes are frames one after another, and then what begins no complete frame or has a
header that is refused; `Frame.Splits` says so without a deframer.
-/

namespace GrpcContract

namespace Frame

/-- Whether no frame can be taken off some bytes, and the error if more bytes would not help. -/
inductive Stops (limit? : Option Nat) : List UInt8 → Option FrameError → Prop
  | inHeader {rest : List UInt8} (hshort : rest.length < headerLength) : Stops limit? rest none
  | inPayload {a b c d : UInt8} {rest : List UInt8}
    (hallowed : Deframer.allows limit? (ofBigEndian [a, b, c, d]))
    (hshort : rest.length < ofBigEndian [a, b, c, d]) :
    Stops limit? (0 :: a :: b :: c :: d :: rest) none
  | compressed (a b c d : UInt8) (rest : List UInt8) :
    Stops limit? (1 :: a :: b :: c :: d :: rest) (some .compressed)
  | invalidFlags {flags : UInt8} (hflags : flags ≠ 0 ∧ flags ≠ 1) (a b c d : UInt8)
    (rest : List UInt8) :
    Stops limit? (flags :: a :: b :: c :: d :: rest) (some (.invalidFlags flags))
  | tooLarge {a b c d : UInt8} {limit : Nat} (hlimit : limit ∈ limit?)
    (hlarge : limit < ofBigEndian [a, b, c, d]) (rest : List UInt8) :
    Stops limit? (0 :: a :: b :: c :: d :: rest)
      (some (.tooLarge (ofBigEndian [a, b, c, d]) limit))

/-- Whether some bytes are the frames of some payloads, as far as frames can be taken off, and then
the rest. -/
structure Splits (limit? : Option Nat) (bytes : List UInt8) (payloads : List (List UInt8))
    (error? : Option FrameError) (rest : List UInt8) : Prop where
  bytes_eq : bytes = payloads.flatMap encode ++ rest
  allowed : ∀ p ∈ payloads, Deframer.allows limit? p.length
  stops : Stops limit? rest error?

theorem ofBigEndian_lt (a b c d : UInt8) : ofBigEndian [a, b, c, d] < 0x100000000 := by
  have ha := a.toNat_lt
  have hb := b.toNat_lt
  have hc := c.toNat_lt
  have hd := d.toNat_lt
  simp only [ofBigEndian, List.foldl_cons, List.foldl_nil]
  omega

theorem bigEndian_ofBigEndian (a b c d : UInt8) :
    bigEndian 4 (ofBigEndian [a, b, c, d]) = [a, b, c, d] := by
  have ha := a.toNat_lt
  have hb := b.toNat_lt
  have hc := c.toNat_lt
  have hd := d.toNat_lt
  have hbytes (n : Nat) : bigEndian 4 n =
      [UInt8.ofNat (n / 0x1000000), UInt8.ofNat (n / 0x10000), UInt8.ofNat (n / 0x100),
        UInt8.ofNat (n / 1)] := rfl
  rw [hbytes]
  simp only [ofBigEndian, List.foldl_cons, List.foldl_nil, List.cons.injEq, and_true,
    ← UInt8.toNat_inj, UInt8.toNat_ofNat']
  omega

/-- A header that is not refused, and as many bytes as it tells, are a frame. -/
theorem encode_of_length {a b c d : UInt8} {payload : List UInt8}
    (hlength : payload.length = ofBigEndian [a, b, c, d]) :
    encode payload = 0 :: a :: b :: c :: d :: payload := by
  rw [encode, hlength, bigEndian_ofBigEndian]
  rfl

theorem length_encode (payload : List UInt8) :
    (encode payload).length = headerLength + payload.length := by
  simp [encode, bigEndian, headerLength]
  omega

end Frame

namespace Deframer

open GrpcContract.Frame

/-! ### One frame -/

theorem accept_cases (d : Deframer) (flags a b c e : UInt8) (rest : List UInt8) :
    flags = 0 ∧ allows d.limit? (ofBigEndian [a, b, c, e]) ∧
        d.accept ⟨flags, ofBigEndian [a, b, c, e]⟩ = .ok () ∨
      ∃ error, d.accept ⟨flags, ofBigEndian [a, b, c, e]⟩ = .error error ∧
        Stops d.limit? (flags :: a :: b :: c :: e :: rest) (some error) := by
  by_cases hone : flags = 1
  · subst hone
    exact .inr ⟨_, rfl, .compressed a b c e rest⟩
  by_cases hzero : flags = 0
  · subst hzero
    cases hlimit : d.limit? with
    | none => exact .inl ⟨rfl, ⟨ofBigEndian_lt .., by simp⟩, by simp [accept, hlimit]⟩
    | some limit =>
        by_cases hlarge : limit < ofBigEndian [a, b, c, e]
        · exact .inr ⟨_, by simp [accept, hlimit, hlarge], .tooLarge rfl hlarge rest⟩
        · refine .inl ⟨rfl, ⟨ofBigEndian_lt .., ?_⟩, by simp [accept, hlimit, hlarge]⟩
          simpa using hlarge
  · exact .inr ⟨_, by simp [accept, hone, hzero], .invalidFlags ⟨hzero, hone⟩ a b c e rest⟩

/-- What a deframer does next tells what its bytes begin with. -/
theorem next_cases (d : Deframer) :
    (∃ payload rest, d.buffer = encode payload ++ rest ∧ allows d.limit? payload.length ∧
        d.next = .ok (some payload, { d with buffer := rest })) ∨
      (d.next = .ok (none, d) ∧ Stops d.limit? d.buffer none) ∨
      ∃ e, d.next = .error e ∧ Stops d.limit? d.buffer (some e) := by
  match hbuffer : d.buffer with
  | [] | [_] | [_, _] | [_, _, _] | [_, _, _, _] =>
      right; left
      exact ⟨by simp [next, hbuffer, header?], .inHeader (by simp [headerLength])⟩
  | flags :: a :: b :: c :: e :: rest =>
      have hheader : header? d.buffer = some ⟨flags, ofBigEndian [a, b, c, e]⟩ := by
        rw [hbuffer]
        rfl
      have hdrop : d.buffer.drop headerLength = rest := by
        rw [hbuffer]
        rfl
      rcases d.accept_cases flags a b c e rest with
        ⟨rfl, hallowed, haccept⟩ | ⟨error, haccept, hstops⟩
      · have hnext : d.next =
            if rest.length < ofBigEndian [a, b, c, e] then .ok (none, d)
            else .ok (some (rest.take (ofBigEndian [a, b, c, e])),
              { d with buffer := rest.drop (ofBigEndian [a, b, c, e]) }) := by
          unfold next
          simp only [hheader, haccept, hdrop]
          rfl
        by_cases hshort : rest.length < ofBigEndian [a, b, c, e]
        · right; left
          exact ⟨by rw [hnext, if_pos hshort], .inPayload hallowed hshort⟩
        · left
          have hlength : (rest.take (ofBigEndian [a, b, c, e])).length =
              ofBigEndian [a, b, c, e] := by
            rw [List.length_take]
            omega
          refine ⟨_, _, ?_, by rwa [hlength], by rw [hnext, if_neg hshort]⟩
          rw [encode_of_length hlength]
          simp
      · right; right
        refine ⟨error, ?_, hstops⟩
        unfold next
        simp only [hheader, haccept]
        rfl

theorem next_of_stops {limit? : Option Nat} {rest : List UInt8} {error? : Option FrameError}
    (hstops : Stops limit? rest error?) :
    next ⟨limit?, rest⟩ = error?.elim (.ok (none, ⟨limit?, rest⟩)) .error := by
  -- Bytes at which no frame can be taken off begin none, and are refused for one reason only.
  cases hstops with
  | inHeader hshort =>
      match rest, hshort with
      | [], _ | [_], _ | [_, _], _ | [_, _, _], _ | [_, _, _, _], _ => rfl
  | inPayload hallowed hshort =>
      rename_i a b c d rest
      have haccept : accept ⟨limit?, 0 :: a :: b :: c :: d :: rest⟩ ⟨0, ofBigEndian [a, b, c, d]⟩ =
          .ok () := by
        cases limit? with
        | none => rfl
        | some limit => simp [accept, Nat.not_lt.mpr (hallowed.2 limit rfl)]
      simp only [next, header?, haccept, bind, Except.bind, headerLength, List.drop_succ_cons,
        List.drop_zero, hshort, ↓reduceIte]
      rfl
  | compressed a b c d rest => rfl
  | invalidFlags hflags a b c d rest =>
      simp [next, header?, accept, hflags.1, hflags.2, bind, Except.bind]
  | tooLarge hlimit hlarge rest =>
      obtain rfl := Option.mem_def.mp hlimit
      simp [next, header?, accept, hlarge, bind, Except.bind]

/-- The next payload, as it is taken off the buffer step by step; none where a step would reach
beyond the end of the buffer. -/
def ask? (d : Deframer) : Option (Except FrameError (Option (List UInt8)) × Deframer) :=
  if d.buffer.length < headerLength then some (.ok none, d)
  else do
    let flags ← d.buffer[0]?
    let length := ofBigEndian [← d.buffer[1]?, ← d.buffer[2]?, ← d.buffer[3]?, ← d.buffer[4]?]
    match d.accept ⟨flags, length⟩ with
    | .error e => return (.error e, d)
    | .ok () =>
      if d.buffer.length < headerLength + length then return (.ok none, d)
      else
        let (_, rest) ← Wire.take? headerLength d.buffer
        let (payload, rest) ← Wire.take? length rest
        return (.ok (some payload), { d with buffer := rest })

/-- Taking off a payload never reaches beyond the end of the buffer, and an error takes nothing. -/
theorem ask?_eq (d : Deframer) :
    d.ask? = some (match d.next with
      | .ok (payload?, after) => (.ok payload?, after)
      | .error e => (.error e, d)) := by
  match hbuffer : d.buffer with
  | [] | [_] | [_, _] | [_, _, _] | [_, _, _, _] =>
      simp [ask?, next, hbuffer, header?, headerLength]
  | flags :: a :: b :: c :: e :: rest =>
      have hheader : header? d.buffer = some ⟨flags, ofBigEndian [a, b, c, e]⟩ := by
        rw [hbuffer]
        rfl
      have hdrop : d.buffer.drop headerLength = rest := by
        rw [hbuffer]
        rfl
      have htake : Wire.take? headerLength d.buffer = some ([flags, a, b, c, e], rest) := by
        rw [hbuffer]
        simp [Wire.take?, headerLength]
      have hlength : d.buffer.length = headerLength + rest.length := by
        simp [hbuffer, headerLength]
        omega
      unfold ask? next
      rw [if_neg (by omega), hheader, hdrop, htake, hlength]
      simp only [hbuffer, List.getElem?_cons_zero, List.getElem?_cons_succ, Option.bind_eq_bind,
        Option.bind_some]
      cases haccept : d.accept ⟨flags, ofBigEndian [a, b, c, e]⟩ with
      | error error => rfl
      | ok u =>
          by_cases hshort : rest.length < ofBigEndian [a, b, c, e]
          · simp [hshort, bind, Except.bind, pure, Except.pure]
          · have hle : ofBigEndian [a, b, c, e] ≤ rest.length := Nat.le_of_not_lt hshort
            simp [hshort, Wire.take?, hle, bind, Except.bind, pure, Except.pure]

/-! ### All frames of all chunks -/

/-- What was taken off a stream, the error that was met last, and the deframer after that. -/
structure Taken where
  payloads : List (List UInt8) := []
  error? : Option FrameError := none
  after : Deframer

/-- Takes off payloads until no complete frame is left or there is an error. -/
def takeAll (d : Deframer) : Taken :=
  match _h : d.next with
  | .error e => { error? := some e, after := d }
  | .ok (none, after) => { after }
  | .ok (some payload, rest) =>
    let taken := rest.takeAll
    { taken with payloads := payload :: taken.payloads }
termination_by d.buffer.length
decreasing_by exact length_next _h

/-- Pushes a chunk and takes off what is there, also after an error. -/
def Taken.receive (taken : Taken) (chunk : List UInt8) : Taken :=
  let more := (taken.after.push chunk).takeAll
  { more with payloads := taken.payloads ++ more.payloads }

def feed (d : Deframer) (chunks : List (List UInt8)) : Taken :=
  chunks.foldl Taken.receive { after := d }

theorem takeAll_of_stops {limit? : Option Nat} {rest : List UInt8} {error? : Option FrameError}
    (hstops : Stops limit? rest error?) :
    takeAll ⟨limit?, rest⟩ = { error?, after := ⟨limit?, rest⟩ } := by
  have hnext := next_of_stops hstops
  rw [takeAll]
  cases error? <;> split <;> simp_all

theorem takeAll_of_some {d d' : Deframer} {payload : List UInt8}
    (hnext : d.next = .ok (some payload, d')) :
    d.takeAll = { d'.takeAll with payloads := payload :: d'.takeAll.payloads } := by
  rw [takeAll]
  split <;> simp_all

/-- Bytes split in one way only, which is how they are taken off. -/
theorem takeAll_of_splits {limit? : Option Nat} {bytes rest : List UInt8}
    {payloads : List (List UInt8)} {error? : Option FrameError}
    (hsplits : Splits limit? bytes payloads error? rest) :
    takeAll ⟨limit?, bytes⟩ = ⟨payloads, error?, ⟨limit?, rest⟩⟩ := by
  induction payloads generalizing bytes with
  | nil =>
      rw [hsplits.bytes_eq]
      exact takeAll_of_stops hsplits.stops
  | cons payload payloads ih =>
      have hrest : Splits limit? (payloads.flatMap encode ++ rest) payloads error? rest :=
        ⟨rfl, fun p hp => hsplits.allowed p (by simp [hp]), hsplits.stops⟩
      have hnext := next_encode (hsplits.allowed payload (by simp))
        (payloads.flatMap encode ++ rest)
      rw [hsplits.bytes_eq, List.flatMap_cons, List.append_assoc, takeAll_of_some hnext, ih hrest]

theorem exists_splits (limit? : Option Nat) (bytes : List UInt8) :
    ∃ payloads error? rest, Splits limit? bytes payloads error? rest := by
  -- Each complete frame shortens what is left.
  induction hlength : bytes.length using Nat.strongRecOn generalizing bytes with
  | ind length ih =>
      rcases next_cases ⟨limit?, bytes⟩ with
        ⟨payload, more, hbytes, hallowed, -⟩ | ⟨-, hstops⟩ | ⟨e, -, hstops⟩
      · have hless : more.length < length := by
          rw [← hlength, show bytes = encode payload ++ more from hbytes, List.length_append,
            length_encode, headerLength]
          omega
        obtain ⟨payloads, error?, rest, hmore, hpayloads, hstops⟩ := ih _ hless more rfl
        refine ⟨payload :: payloads, error?, rest, ?_, ?_, hstops⟩
        · rw [List.flatMap_cons, List.append_assoc, ← hmore]
          exact hbytes
        · exact List.forall_mem_cons.mpr ⟨hallowed, hpayloads⟩
      · exact ⟨[], none, bytes, rfl, by simp, hstops⟩
      · exact ⟨[], some e, bytes, rfl, by simp, hstops⟩

/-- Whether what was taken is all that can be taken off some bytes. -/
structure Taken.Covers (limit? : Option Nat) (bytes : List UInt8) (taken : Taken) : Prop where
  limit?_eq : taken.after.limit? = limit?
  splits : Splits limit? bytes taken.payloads taken.error? taken.after.buffer

theorem covers_takeAll (d : Deframer) : d.takeAll.Covers d.limit? d.buffer := by
  obtain ⟨payloads, error?, rest, hsplits⟩ := exists_splits d.limit? d.buffer
  rw [show d.takeAll = _ from takeAll_of_splits hsplits]
  exact ⟨rfl, hsplits⟩

variable {limit? : Option Nat} {bytes : List UInt8}

theorem Taken.Covers.eq {taken : Taken} (hcovers : taken.Covers limit? bytes) :
    taken = takeAll ⟨limit?, bytes⟩ := by
  obtain ⟨payloads, error?, limit', rest⟩ := taken
  obtain ⟨rfl, hsplits⟩ := hcovers
  exact (takeAll_of_splits hsplits).symm

theorem Taken.Covers.receive {taken : Taken} (hcovers : taken.Covers limit? bytes)
    (chunk : List UInt8) : (taken.receive chunk).Covers limit? (bytes ++ chunk) := by
  obtain ⟨rfl, hbytes, hallowed, -⟩ := hcovers
  obtain ⟨hlimit, hmore, hmoreAllowed, hstops⟩ := covers_takeAll (taken.after.push chunk)
  refine ⟨hlimit, ?_, ?_, hstops⟩
  · rw [hbytes, List.append_assoc, Taken.receive, List.flatMap_append, List.append_assoc]
    exact congrArg _ hmore
  · exact List.forall_mem_append.mpr ⟨hallowed, hmoreAllowed⟩

theorem covers_feed (limit? : Option Nat) (chunks : List (List UInt8)) :
    (feed { limit? } chunks).Covers limit? chunks.flatten := by
  have hrun (taken : Taken) (bytes : List UInt8) (hcovers : taken.Covers limit? bytes) :
      (chunks.foldl Taken.receive taken).Covers limit? (bytes ++ chunks.flatten) := by
    induction chunks generalizing taken bytes with
    | nil => simpa using hcovers
    | cons chunk chunks ih =>
        rw [List.foldl_cons, List.flatten_cons, ← List.append_assoc]
        exact ih _ _ (hcovers.receive chunk)
  have hstart : Taken.Covers limit? [] { after := { limit? } } :=
    ⟨rfl, rfl, by simp, .inHeader (by simp [headerLength])⟩
  exact hrun _ [] hstart

/-- Bytes at which no frame can be taken off although there is no error begin with no frame. -/
theorem ne_encode_of_stops {rest : List UInt8} (hstops : Stops limit? rest none)
    {payload : List UInt8} (hlength : payload.length < 0x100000000) (more : List UInt8) :
    rest ≠ encode payload ++ more := by
  intro hrest
  have hheader := (header?_encode hlength more).1
  rw [← hrest] at hheader
  have hlong : headerLength + payload.length ≤ rest.length := by
    rw [hrest, List.length_append, length_encode]
    omega
  cases hstops with
  | inHeader hshort => omega
  | inPayload hallowed hshort =>
      have heq := congrArg Header.length (Option.some.inj hheader)
      simp only [List.length_cons, headerLength] at hlong heq
      omega

/-- What is taken off a stream depends on its bytes and not on the chunks in which they come: it is
the payloads of all frames from left to right up to where the bytes stop, and the error if they stop
at a header that is refused. The deframer is then at that point and stays there: asked again it
gives the same error, and without an error it is not at a complete frame and tells how many bytes
are left. Whatever it has taken in, it never reaches beyond the end of its buffer. -/
theorem feed_of_flatten (limit? : Option Nat) (bytes : List UInt8) :
    ∃ payloads error? rest, Splits limit? bytes payloads error? rest ∧
      (∀ chunks, chunks.flatten = bytes →
        feed { limit? } chunks = ⟨payloads, error?, ⟨limit?, rest⟩⟩) ∧
      ask? ⟨limit?, rest⟩ = some (error?.elim (.ok none) .error, ⟨limit?, rest⟩) ∧
      (error? = none →
        finish ⟨limit?, rest⟩ =
            (if rest = [] then .ok () else .error (.incomplete rest.length)) ∧
          ∀ payload more, payload.length < 0x100000000 → rest ≠ encode payload ++ more) ∧
      ∀ d : Deframer, d.ask? = some (match d.next with
        | .ok (payload?, after) => (.ok payload?, after)
        | .error e => (.error e, d)) := by
  obtain ⟨payloads, error?, rest, hsplits⟩ := exists_splits limit? bytes
  refine ⟨payloads, error?, rest, hsplits, ?_, ?_, ?_, ask?_eq⟩
  · rintro chunks rfl
    rw [(covers_feed limit? chunks).eq, takeAll_of_splits hsplits]
  · rw [ask?_eq, next_of_stops hsplits.stops]
    cases error? <;> rfl
  · rintro rfl
    exact ⟨rfl, fun _ more hlength => ne_encode_of_stops hsplits.stops hlength more⟩

/-! ### Truncated streams -/

/-- The frames of some payloads stop wherever they are cut off before the end of the next frame. -/
theorem stops_of_prefix {payload p more : List UInt8} (hallowed : allows limit? payload.length)
    (hbegins : p <+: encode payload ++ more) (hshort : p.length < (encode payload).length) :
    Stops limit? p none := by
  rcases next_cases ⟨limit?, p⟩ with
    ⟨payload', rest, hp, hallowed', -⟩ | ⟨-, hstops⟩ | ⟨e, hnext, -⟩
  · -- A frame in the cut part would be the whole frame, which is longer.
    obtain ⟨cut, hcut⟩ := hbegins
    have hp : p = encode payload' ++ rest := hp
    have hheader := (header?_encode hallowed.1 more).1
    rw [← hcut, hp, List.append_assoc, (header?_encode hallowed'.1 _).1] at hheader
    have hlength := congrArg Header.length (Option.some.inj hheader)
    rw [hp, List.length_append, length_encode, length_encode] at hshort
    simp only at hlength
    omega
  · exact hstops
  · obtain ⟨cut, hcut⟩ := hbegins
    have hpush : push ⟨limit?, p⟩ cut = ⟨limit?, encode payload ++ more⟩ := by
      rw [← hcut]
      rfl
    have herror := next_push_of_error hnext cut
    rw [hpush, next_encode hallowed] at herror
    cases herror

/-- A beginning of some frames splits into those that are whole and a part of the next. -/
theorem exists_splits_of_prefix {payloads : List (List UInt8)} {p : List UInt8}
    (hallowed : ∀ q ∈ payloads, allows limit? q.length)
    (hbegins : p <+: payloads.flatMap encode) :
    ∃ k rest, k ≤ payloads.length ∧ Splits limit? p (payloads.take k) none rest ∧
      ∀ q ∈ payloads[k]?, rest.length < (encode q).length := by
  induction payloads generalizing p with
  | nil =>
      obtain rfl := List.prefix_nil.mp hbegins
      exact ⟨0, [], Nat.le_refl _, ⟨rfl, by simp, .inHeader (by simp [headerLength])⟩, by simp⟩
  | cons payload payloads ih =>
      rw [List.forall_mem_cons] at hallowed
      rw [List.flatMap_cons] at hbegins
      by_cases hshort : p.length < (encode payload).length
      · exact ⟨0, p, Nat.zero_le _, ⟨rfl, by simp, stops_of_prefix hallowed.1 hbegins hshort⟩,
          by simpa using hshort⟩
      · obtain ⟨p', rfl⟩ :=
          List.prefix_of_prefix_length_le (List.prefix_append _ _) hbegins (Nat.le_of_not_lt hshort)
        obtain ⟨k, rest, hk, ⟨hbytes, htaken, hstops⟩, hnext⟩ :=
          ih hallowed.2 ((List.prefix_append_right_inj _).mp hbegins)
        refine ⟨k + 1, rest, Nat.succ_le_succ hk, ⟨?_, ?_, hstops⟩, by simpa using hnext⟩
        · rw [List.take_succ_cons, List.flatMap_cons, List.append_assoc, ← hbytes]
        · exact List.forall_mem_cons.mpr ⟨hallowed.1, htaken⟩

/-- The frames of some messages give back the messages, however the stream is cut into chunks and
wherever it ends: the messages whose frames have come as a whole, in their order. The stream ends
well exactly where it ends between two frames, and else with the number of bytes since the last. -/
theorem feed_truncated {s : Schema} {t : MessageType} {ms : List Message}
    (hallowed : ∀ m ∈ ms, allows limit? (m.write s t).length) {p : List UInt8}
    (hbegins : p <+: ms.flatMap fun m => encode (m.write s t)) {chunks : List (List UInt8)}
    (hchunks : chunks.flatten = p) :
    ∃ k rest, k ≤ ms.length ∧
      p = (ms.take k).flatMap (fun m => encode (m.write s t)) ++ rest ∧
      (∀ m ∈ ms[k]?, rest.length < (encode (m.write s t)).length) ∧
      feed { limit? } chunks =
        ⟨(ms.take k).map fun m => m.write s t, none, ⟨limit?, rest⟩⟩ ∧
      finish ⟨limit?, rest⟩ =
        (if rest = [] then .ok () else .error (.incomplete rest.length)) ∧
      (finish ⟨limit?, rest⟩ = .ok () ↔
        ∃ j, p = (ms.take j).flatMap fun m => encode (m.write s t)) := by
  have hpayloads : ∀ q ∈ ms.map fun m => m.write s t, allows limit? q.length :=
    List.forall_mem_map.mpr hallowed
  have hframes (ms : List Message) : (ms.map fun m => m.write s t).flatMap encode =
      ms.flatMap fun m => encode (m.write s t) := List.flatMap_map ..
  rw [← hframes] at hbegins
  obtain ⟨k, rest, hk, hsplits, hnext⟩ := exists_splits_of_prefix hpayloads hbegins
  rw [← List.map_take] at hsplits
  have hfeed : feed { limit? } chunks = ⟨(ms.take k).map fun m => m.write s t, none,
      ⟨limit?, rest⟩⟩ := by
    rw [(covers_feed limit? chunks).eq, hchunks, takeAll_of_splits hsplits]
  refine ⟨k, rest, by simpa using hk, ?_, ?_, hfeed, rfl, ?_⟩
  · rw [← hframes]
    exact hsplits.bytes_eq
  · intro m hm
    exact hnext _ (by simp [Option.mem_def.mp hm])
  · have hfinish : finish ⟨limit?, rest⟩ = .ok () ↔ rest = [] := by simp [finish]
    rw [hfinish]
    constructor
    · rintro rfl
      exact ⟨k, by rw [← hframes]; simpa using hsplits.bytes_eq⟩
    · -- Whole frames split in one way only, and leave nothing.
      rintro ⟨j, hj⟩
      have hwhole : Splits limit? p ((ms.take j).map fun m => m.write s t) none [] := by
        refine ⟨by rw [hframes, List.append_nil]; exact hj, ?_, .inHeader (by simp [headerLength])⟩
        exact List.forall_mem_map.mpr fun m hm => hallowed m (List.mem_of_mem_take hm)
      have hsame := (takeAll_of_splits hsplits).symm.trans (takeAll_of_splits hwhole)
      simpa using congrArg (fun taken => taken.after.buffer) hsame

end Deframer

namespace Sample

/-- Of two frames in three chunks, the second without its payload. -/
theorem feed_truncated_pair :
    Deframer.feed { limit? := some 4 } [[0, 0, 0], [], [0, 2, 8, 1, 0, 0, 0, 0, 3]] =
        ⟨[[8, 1]], none, ⟨some 4, [0, 0, 0, 0, 3]⟩⟩ ∧
      Deframer.finish ⟨some 4, [0, 0, 0, 0, 3]⟩ = .error (.incomplete 5) := by
  let t := oneValue "example.UnaryRequest"
  have hfirst : (valueMessage 1).write schema t = [8, 1] := by cbv
  have hsecond : (valueMessage 300).write schema t = [8, 172, 2] := by cbv
  have hallowed : ∀ m ∈ [valueMessage 1, valueMessage 300],
      Deframer.allows (some 4) (m.write schema t).length := by
    simp [Deframer.allows, hfirst, hsecond]
  have hframes : ([valueMessage 1, valueMessage 300].flatMap fun m =>
      Frame.encode (m.write schema t)) = [0, 0, 0, 0, 2, 8, 1, 0, 0, 0, 0, 3, 8, 172, 2] := by
    simp only [List.flatMap_cons, List.flatMap_nil, hfirst, hsecond]
    decide
  have hchunks : [[0, 0, 0], [], [0, 2, 8, 1, 0, 0, 0, 0, 3]].flatten =
      ([0, 0, 0, 0, 2, 8, 1, 0, 0, 0, 0, 3] : List UInt8) := rfl
  obtain ⟨k, rest, hk, hbytes, hnext, hfeed, hfinish, -⟩ :=
    Deframer.feed_truncated hallowed (by rw [hframes]; exact ⟨[8, 172, 2], rfl⟩) hchunks
  have hcount : k = 0 ∨ k = 1 ∨ k = 2 := by
    simp only [List.length_cons, List.length_nil] at hk
    omega
  rcases hcount with rfl | rfl | rfl
  · have hshort := hnext (valueMessage 1) rfl
    rw [← show _ = rest from hbytes, hfirst] at hshort
    exact absurd hshort (by decide)
  · have hrest : rest = [0, 0, 0, 0, 3] := by
      have hone : Frame.encode [8, 1] = [0, 0, 0, 0, 2, 8, 1] := by decide
      simpa [hfirst, hone] using hbytes.symm
    rw [hrest] at hfeed hfinish
    exact ⟨by simpa [hfirst] using hfeed, hfinish⟩
  · have hlong := congrArg List.length hbytes
    rw [show [valueMessage 1, valueMessage 300].take 2 = [valueMessage 1, valueMessage 300]
      from rfl, hframes] at hlong
    simp at hlong

end Sample

end GrpcContract
