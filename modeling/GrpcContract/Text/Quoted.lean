import GrpcContract.Text.Printable

/-!
Quotations within messages: texts and header values in double quotes, with escapes for what would
not show.
-/

namespace GrpcContract.Text

/-- The digits of a number in lower-case hexadecimal, without padding. -/
def hex (n : Nat) : List Char :=
  Nat.toDigits 16 n

def quoteChar (c : Char) : List Char :=
  match c with
  | '"' => ['\\', '"']
  | '\\' => ['\\', '\\']
  | '\t' => ['\\', 't']
  | '\n' => ['\\', 'n']
  | '\r' => ['\\', 'r']
  | '\x00' => ['\\', '0']
  | c => if isPrintable c then [c] else '\\' :: 'u' :: '\x7b' :: hex c.toNat ++ ['\x7d']

def quote (s : String) : String :=
  String.ofList ('"' :: s.toList.flatMap quoteChar ++ ['"'])

/-- The quoted form of one byte of a header value: backslashes are not escaped. -/
def quoteByte (b : UInt8) : List Char :=
  if b == 0x22 then ['\\', '"']
  else if (0x20 ≤ b && b ≤ 0x7E) || b == 0x09 then [Char.ofNat b.toNat]
  else '\\' :: 'x' :: hex b.toNat

def quoteBytes (bs : List UInt8) : String :=
  String.ofList ('"' :: bs.flatMap quoteByte ++ ['"'])

end GrpcContract.Text
