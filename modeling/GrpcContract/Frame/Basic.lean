import GrpcContract.Status.Basic
import GrpcContract.Text.Quoted

/-!
Frames: a message on the wire is preceded by five bytes, a flag and the message's length with the
highest byte first. The flag tells whether the message is compressed; only zero is spoken.
-/

namespace GrpcContract

namespace Frame

def headerLength : Nat := 5

/-- The `count` low bytes of a number, the highest first. -/
def bigEndian (count n : Nat) : List UInt8 :=
  (List.range count).map fun i => UInt8.ofNat (n / Nat.pow 256 (count - 1 - i))

/-- The number whose bytes are given, the highest first. -/
def ofBigEndian (bs : List UInt8) : Nat :=
  bs.foldl (fun n b => 256 * n + b.toNat) 0

structure Header where
  flags : UInt8
  length : Nat
deriving DecidableEq, Inhabited

/-- The header at the start of some bytes, if they are enough. -/
def header? : List UInt8 → Option Header
  | f :: a :: b :: c :: d :: _ => some ⟨f, ofBigEndian [a, b, c, d]⟩
  | _ => none

/-- The frame of a message's bytes. Only the low 32 bits of the length are written. -/
def encode (payload : List UInt8) : List UInt8 :=
  0 :: bigEndian 4 payload.length ++ payload

def bufferCapacity (size : Nat) : Nat :=
  max 4096 (min size 1048576)

end Frame

/-- Why bytes are not a sequence of frames. -/
inductive FrameError
  | incomplete (buffered : Nat)
  | compressed
  | invalidFlags (flags : UInt8)
  | tooLarge (size limit : Nat)
deriving DecidableEq, Inhabited

namespace FrameError

def hexByte (b : UInt8) : String :=
  let ds := Text.hex b.toNat
  String.ofList (List.replicate (2 - ds.length) '0' ++ ds)

def describe : FrameError → String
  | incomplete buffered => s!"incomplete frame: {buffered} bytes left unread"
  | compressed => "compressed frame received but no grpc-encoding was negotiated"
  | invalidFlags flags => "invalid frame flags: 0x" ++ hexByte flags
  | tooLarge size limit => s!"message length {size} exceeds the limit of {limit} bytes"

def toStatus (e : FrameError) : Status :=
  match e with
  | incomplete _ | invalidFlags _ => .because .internal e.describe
  | compressed => .because .unimplemented e.describe
  | tooLarge .. => .because .resourceExhausted e.describe

end FrameError

/-- A buffer that takes bytes as they come and gives the payloads of complete frames. -/
structure Deframer where
  limit? : Option Nat
  buffer : List UInt8 := []
deriving DecidableEq, Inhabited

namespace Deframer

def push (d : Deframer) (chunk : List UInt8) : Deframer :=
  { d with buffer := d.buffer ++ chunk }

def accept (d : Deframer) (h : Frame.Header) : Except FrameError Unit :=
  if h.flags = 1 then .error .compressed
  else if h.flags ≠ 0 then .error (.invalidFlags h.flags)
  else
    match d.limit? with
    | some limit => if limit < h.length then .error (.tooLarge h.length limit) else .ok ()
    | none => .ok ()

/-- The payload of the next frame, if all of it is there. A bad header is an error as soon as it
is complete. -/
def next (d : Deframer) : Except FrameError (Option (List UInt8) × Deframer) :=
  match Frame.header? d.buffer with
  | none => .ok (none, d)
  | some h => do
    d.accept h
    let rest := d.buffer.drop Frame.headerLength
    if rest.length < h.length then return (none, d)
    else return (some (rest.take h.length), { d with buffer := rest.drop h.length })

/-- Ends the input: nothing may be left. -/
def finish (d : Deframer) : Except FrameError Unit :=
  if d.buffer = [] then .ok () else .error (.incomplete d.buffer.length)

theorem length_next {d d' : Deframer} {payload : List UInt8}
    (h : d.next = .ok (some payload, d')) : d'.buffer.length < d.buffer.length := by
  unfold next at h
  split at h
  · cases h
  · rename_i header hheader
    cases haccept : d.accept header with
    | error e => simp [haccept, bind, Except.bind] at h
    | ok u =>
      simp only [haccept, bind, Except.bind] at h
      split at h
      · cases h
      · cases h
        match hb : d.buffer, hheader with
        | _ :: _ :: _ :: _ :: _ :: rest, _ => simp [Frame.headerLength]; omega

/-- The payloads of all complete frames, and what is left of the bytes or why they cannot be read
any further. -/
def drain (d : Deframer) : List (List UInt8) × Except FrameError Deframer :=
  match _h : d.next with
  | .error e => ([], .error e)
  | .ok (none, d) => ([], .ok d)
  | .ok (some payload, rest) =>
    let after := rest.drain
    (payload :: after.1, after.2)
termination_by d.buffer.length
decreasing_by exact length_next _h

end Deframer

end GrpcContract
