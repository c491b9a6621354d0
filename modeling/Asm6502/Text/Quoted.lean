-- Text in quotes for messages: what cannot be printed is written as an escape.
import Asm6502.Text.Printable
import Asm6502.Text.Utf8

namespace Asm6502

namespace Quoted

def lowerDigit (n : Nat) : UInt8 :=
  if n < 10 then UInt8.ofNat (0x30 + n) else UInt8.ofNat (0x61 + (n - 10))

def lowerHex : Nat → Nat → Text
  | 0, _ => []
  | count + 1, n => lowerHex count (n / 16) ++ [lowerDigit (n % 16)]

/-- The letters of the short escapes. -/
def shortEscape? (code : Nat) : Option UInt8 :=
  [(0x07, 0x61), (0x08, 0x62), (0x0C, 0x66), (0x0A, 0x6E), (0x0D, 0x72), (0x09, 0x74),
    (0x0B, 0x76), (0x22, 0x22), (0x5C, 0x5C)].lookup code

/-- A code point inside quotes. -/
def codePoint (code : Nat) : Text :=
  match shortEscape? code with
  | some b => [Ascii.backslash, b]
  | none =>
    if isPrintable code then Utf8.encode code
    else if code < 0x80 then ascii "\\x" ++ lowerHex 2 code
    else if code < 0x10000 then ascii "\\u" ++ lowerHex 4 code
    else ascii "\\U" ++ lowerHex 8 code

/-- The body between quotes. A byte of no valid sequence is written by its
number. -/
def body (fuel : Nat) (t : Text) : Text :=
  match fuel, t with
  | 0, _ => []
  | _, [] => []
  | fuel + 1, b :: tail =>
    match Utf8.next (b :: tail) with
    | none => []
    | some (code, rest) =>
      if code = Utf8.replacement ∧ rest = tail then
        ascii "\\x" ++ lowerHex 2 b.toNat ++ body fuel rest
      else codePoint code ++ body fuel rest

def render (t : Text) : Text := Ascii.quote :: (body t.length t ++ [Ascii.quote])

end Quoted

end Asm6502
