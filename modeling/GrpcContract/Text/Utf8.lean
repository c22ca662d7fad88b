/-!
UTF-8 as lists of bytes. Reading goes sequence by sequence: `Utf8.next` takes one well-formed
sequence, or the longest start of one that goes wrong. Strict reading refuses the latter, lossy
reading puts U+FFFD in its place.
-/

namespace GrpcContract.Text.Utf8

def encode (cs : List Char) : List UInt8 :=
  cs.flatMap String.utf8EncodeChar

/-- Whether a byte lies in `80..BF`. -/
def isContinuation (b : UInt8) : Bool :=
  0x80 ≤ b && b ≤ 0xBF

def low (b : UInt8) : Nat :=
  b.toNat % 64

/-- The second bytes that may follow a first byte: they exclude overlong forms, surrogates and
what lies above U+10FFFF. -/
def secondBytes (first : UInt8) : UInt8 × UInt8 :=
  if first == 0xE0 then (0xA0, 0xBF)
  else if first == 0xED then (0x80, 0x9F)
  else if first == 0xF0 then (0x90, 0xBF)
  else if first == 0xF4 then (0x80, 0x8F)
  else (0x80, 0xBF)

/-- Whether `second` may follow `first`. -/
def follows (first second : UInt8) : Bool :=
  (secondBytes first).1 ≤ second && second ≤ (secondBytes first).2

/-- The first sequence, begun by `b`: its character, or none when it is ill-formed, and what
comes after it. -/
def next (b : UInt8) (rest : List UInt8) : Option Char × List UInt8 :=
  if b < 0x80 then (some (Char.ofNat b.toNat), rest)
  else if b < 0xC2 || b > 0xF4 then (none, rest)
  else
    match rest with
    | [] => (none, [])
    | c :: rest =>
      if !follows b c then (none, c :: rest)
      else if b < 0xE0 then (some (Char.ofNat (b.toNat % 32 * 64 + low c)), rest)
      else
        match rest with
        | [] => (none, [])
        | d :: rest =>
          if !isContinuation d then (none, d :: rest)
          else if b < 0xF0 then
            (some (Char.ofNat ((b.toNat % 16 * 64 + low c) * 64 + low d)), rest)
          else
            match rest with
            | [] => (none, [])
            | e :: rest =>
              if !isContinuation e then (none, e :: rest)
              else
                (some (Char.ofNat (((b.toNat % 8 * 64 + low c) * 64 + low d) * 64 + low e)), rest)

theorem length_next_le (b : UInt8) (rest : List UInt8) : (next b rest).2.length ≤ rest.length := by
  unfold next
  repeat' split
  all_goals simp
  all_goals omega

def decode? : List UInt8 → Option (List Char)
  | [] => some []
  | b :: rest =>
    match (next b rest).1 with
    | none => none
    | some c => (decode? (next b rest).2).map (c :: ·)
termination_by bytes => bytes.length
decreasing_by exact Nat.lt_succ_of_le (length_next_le b rest)

/-- Reads any bytes; every ill-formed sequence becomes one U+FFFD. -/
def decodeLossy : List UInt8 → List Char
  | [] => []
  | b :: rest => (next b rest).1.getD '\uFFFD' :: decodeLossy (next b rest).2
termination_by bytes => bytes.length
decreasing_by exact Nat.lt_succ_of_le (length_next_le b rest)

end GrpcContract.Text.Utf8
