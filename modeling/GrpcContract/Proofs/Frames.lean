import GrpcContract.Frame.Basic

/-!
# Frames

A deframer gives the same payloads however its bytes are cut, and gives back the payloads that
were encoded.
-/

namespace GrpcContract

namespace Deframer

variable {d d' : Deframer} {payload : List UInt8} {e : FrameError}

theorem push_push (d : Deframer) (bs cs : List UInt8) :
    (d.push bs).push cs = d.push (bs ++ cs) := by
  simp [push]

@[simp]
theorem push_nil (d : Deframer) : d.push [] = d := by
  simp [push]

theorem header?_append {bs : List UInt8} {h : Frame.Header} (hheader : Frame.header? bs = some h)
    (cs : List UInt8) :
    Frame.header? (bs ++ cs) = some h ∧
      (bs ++ cs).drop Frame.headerLength = bs.drop Frame.headerLength ++ cs := by
  match bs, hheader with
  | _ :: _ :: _ :: _ :: _ :: _, hheader => exact ⟨hheader, rfl⟩

theorem accept_push (d : Deframer) (bs : List UInt8) (h : Frame.Header) :
    (d.push bs).accept h = d.accept h := rfl

/-! ### One frame -/

theorem eq_of_next_none {d' : Deframer} (hnext : d.next = .ok (none, d')) : d' = d := by
  unfold next at hnext
  split at hnext
  · exact (Prod.mk.inj (Except.ok.inj hnext)).2.symm
  · rename_i h hheader
    cases haccept : d.accept h with
    | error e => simp [haccept, bind, Except.bind] at hnext
    | ok u =>
        simp only [haccept, bind, Except.bind] at hnext
        split at hnext
        · exact (Prod.mk.inj (Except.ok.inj hnext)).2.symm
        · exact absurd (Prod.mk.inj (Except.ok.inj hnext)).1 (by simp)

/-- A bad header stays bad, whatever comes after it. -/
theorem next_push_of_error (hnext : d.next = .error e) (bs : List UInt8) :
    (d.push bs).next = .error e := by
  unfold next at hnext ⊢
  split at hnext
  · cases hnext
  · rename_i h hheader
    have hpush : Frame.header? (d.push bs).buffer = some h := (header?_append hheader bs).1
    rw [hpush]
    simp only [accept_push]
    cases haccept : d.accept h with
    | error e' =>
        simp only [haccept, bind, Except.bind] at hnext ⊢
        exact hnext
    | ok u =>
        simp only [haccept, bind, Except.bind] at hnext
        split at hnext <;> cases hnext

/-- A complete frame stays what it is, whatever comes after it. -/
theorem next_push_of_some (hnext : d.next = .ok (some payload, d')) (bs : List UInt8) :
    (d.push bs).next = .ok (some payload, d'.push bs) := by
  unfold next at hnext ⊢
  split at hnext
  · cases hnext
  · rename_i h hheader
    obtain ⟨hpush, hrest⟩ := header?_append hheader bs
    have hpush' : Frame.header? (d.push bs).buffer = some h := hpush
    have hrest' : (d.push bs).buffer.drop Frame.headerLength =
        d.buffer.drop Frame.headerLength ++ bs := hrest
    rw [hpush']
    simp only [accept_push, hrest']
    cases haccept : d.accept h with
    | error e' => simp [haccept, bind, Except.bind] at hnext
    | ok u =>
        simp only [haccept, bind, Except.bind] at hnext ⊢
        split at hnext
        · exact absurd (Prod.mk.inj (Except.ok.inj hnext)).1 (by simp)
        · rename_i hlong
          obtain ⟨hpayload, hleft⟩ := Prod.mk.inj (Except.ok.inj hnext)
          have hle : h.length ≤ (d.buffer.drop Frame.headerLength).length := by omega
          rw [if_neg (by rw [List.length_append]; omega), List.take_append_of_le_length hle,
            List.drop_append_of_le_length hle]
          subst hleft
          rw [← Option.some.inj hpayload]
          rfl

/-! ### All frames -/

theorem drain_of_error (hnext : d.next = .error e) : d.drain = ([], .error e) := by
  rw [drain]
  split <;> simp_all

theorem drain_of_none (hnext : d.next = .ok (none, d')) : d.drain = ([], .ok d) := by
  obtain rfl := eq_of_next_none hnext
  rw [drain]
  split <;> simp_all

theorem drain_of_some (hnext : d.next = .ok (some payload, d')) :
    d.drain = (payload :: d'.drain.1, d'.drain.2) := by
  rw [drain]
  split <;> simp_all

end Deframer

/-! ### Encoded frames -/

namespace Frame

theorem ofBigEndian_bigEndian {n : Nat} (hlt : n < 0x100000000) :
    ofBigEndian (bigEndian 4 n) = n := by
  have hbytes : bigEndian 4 n =
      [UInt8.ofNat (n / 0x1000000), UInt8.ofNat (n / 0x10000), UInt8.ofNat (n / 0x100),
        UInt8.ofNat (n / 1)] := rfl
  rw [hbytes]
  simp only [ofBigEndian, List.foldl_cons, List.foldl_nil, UInt8.toNat_ofNat']
  omega

theorem header?_encode {payload : List UInt8} (hlt : payload.length < 0x100000000)
    (rest : List UInt8) :
    header? (encode payload ++ rest) = some ⟨0, payload.length⟩ ∧
      (encode payload ++ rest).drop headerLength = payload ++ rest := by
  have hlength := ofBigEndian_bigEndian hlt
  refine ⟨?_, rfl⟩
  simp only [encode, bigEndian, List.range, List.range.loop, List.map_cons, List.map_nil,
    List.cons_append, List.nil_append, header?] at hlength ⊢
  rw [hlength]

end Frame

namespace Deframer

/-- Whether a message of some size may be received. -/
def allows (limit? : Option Nat) (size : Nat) : Prop :=
  size < 0x100000000 ∧ ∀ limit ∈ limit?, size ≤ limit

theorem next_encode {limit? : Option Nat} {payload : List UInt8}
    (hsize : allows limit? payload.length) (rest : List UInt8) :
    next ⟨limit?, Frame.encode payload ++ rest⟩ = .ok (some payload, ⟨limit?, rest⟩) := by
  obtain ⟨hheader, hdrop⟩ := Frame.header?_encode hsize.1 rest
  have haccept : accept ⟨limit?, Frame.encode payload ++ rest⟩ ⟨0, payload.length⟩ = .ok () := by
    cases limit? with
    | none => rfl
    | some limit =>
        have hle : payload.length ≤ limit := hsize.2 limit rfl
        simp [accept, Nat.not_lt.mpr hle]
  unfold next
  simp only [hheader, haccept, hdrop, bind, Except.bind, List.length_append]
  rw [if_neg (by omega)]
  simp [pure, Except.pure]

/-- A frame whose payload is longer than what is accepted is an error. -/
theorem next_tooLarge {limit : Nat} {payload : List UInt8} (hlt : payload.length < 0x100000000)
    (hlarge : limit < payload.length) (rest : List UInt8) :
    next ⟨some limit, Frame.encode payload ++ rest⟩ =
      .error (.tooLarge payload.length limit) := by
  have haccept : accept ⟨some limit, Frame.encode payload ++ rest⟩ ⟨0, payload.length⟩ =
      .error (.tooLarge payload.length limit) := by
    simp [accept, hlarge]
  unfold next
  simp only [(Frame.header?_encode hlt rest).1, haccept, bind, Except.bind]

/-- The frames of some payloads give back the payloads, and nothing is left. -/
theorem drain_encode {limit? : Option Nat} {payloads : List (List UInt8)}
    (hsize : ∀ p ∈ payloads, allows limit? p.length) :
    drain ⟨limit?, payloads.flatMap Frame.encode⟩ = (payloads, .ok { limit? }) := by
  induction payloads with
  | nil =>
      have hnext : next { limit? } = .ok (none, { limit? }) := rfl
      exact drain_of_none hnext
  | cons p payloads ih =>
      rw [List.flatMap_cons, drain_of_some (next_encode (hsize p (by simp)) _),
        ih fun q hq => hsize q (by simp [hq])]

end Deframer

end GrpcContract
