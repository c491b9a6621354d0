-- Source text, names and messages are byte strings. This file holds the
-- byte classes that the scanners test and the number formats that messages,
-- listings and object files are written with.

namespace Asm6502

/-- A byte string: source text, a name or a message. -/
abbrev Text := List UInt8

/-- The bytes of a text that is written in ASCII. -/
def ascii (s : String) : Text := s.toList.map Char.toUInt8

/-! ## Named bytes -/

namespace Ascii

@[match_pattern] abbrev null : UInt8 := 0x00
@[match_pattern] abbrev newline : UInt8 := 0x0A
@[match_pattern] abbrev carriageReturn : UInt8 := 0x0D
@[match_pattern] abbrev space : UInt8 := 0x20
@[match_pattern] abbrev quote : UInt8 := 0x22
@[match_pattern] abbrev hash : UInt8 := 0x23
@[match_pattern] abbrev dollar : UInt8 := 0x24
@[match_pattern] abbrev percent : UInt8 := 0x25
@[match_pattern] abbrev apostrophe : UInt8 := 0x27
@[match_pattern] abbrev leftParen : UInt8 := 0x28
@[match_pattern] abbrev rightParen : UInt8 := 0x29
@[match_pattern] abbrev star : UInt8 := 0x2A
@[match_pattern] abbrev plus : UInt8 := 0x2B
@[match_pattern] abbrev comma : UInt8 := 0x2C
@[match_pattern] abbrev minus : UInt8 := 0x2D
@[match_pattern] abbrev dot : UInt8 := 0x2E
@[match_pattern] abbrev slash : UInt8 := 0x2F
@[match_pattern] abbrev zero : UInt8 := 0x30
@[match_pattern] abbrev colon : UInt8 := 0x3A
@[match_pattern] abbrev semicolon : UInt8 := 0x3B
@[match_pattern] abbrev less : UInt8 := 0x3C
@[match_pattern] abbrev equals : UInt8 := 0x3D
@[match_pattern] abbrev greater : UInt8 := 0x3E
@[match_pattern] abbrev leftBracket : UInt8 := 0x5B
@[match_pattern] abbrev backslash : UInt8 := 0x5C
@[match_pattern] abbrev rightBracket : UInt8 := 0x5D
@[match_pattern] abbrev underscore : UInt8 := 0x5F

end Ascii

/-! ## Byte classes -/

/-- Tab, newline, form feed, carriage return or space. -/
def isBlank (b : UInt8) : Bool := b == 0x09 || b == 0x0A || b == 0x0C || b == 0x0D || b == 0x20

def isDigit (b : UInt8) : Bool := 0x30 ≤ b && b ≤ 0x39

def isUpper (b : UInt8) : Bool := 0x41 ≤ b && b ≤ 0x5A

def isLower (b : UInt8) : Bool := 0x61 ≤ b && b ≤ 0x7A

def isLetter (b : UInt8) : Bool := isUpper b || isLower b

/-- A byte that may stand inside a label: a letter, a digit or `_`. -/
def isWordByte (b : UInt8) : Bool := isLetter b || isDigit b || b == Ascii.underscore

/-! ## Digits -/

/-- The value of a hexadecimal digit of either case. -/
def hexDigit? (b : UInt8) : Option Nat :=
  if isDigit b then some (b.toNat - 0x30)
  else if 0x41 ≤ b && b ≤ 0x46 then some (b.toNat - 0x41 + 10)
  else if 0x61 ≤ b && b ≤ 0x66 then some (b.toNat - 0x61 + 10)
  else none

def isHexDigit (b : UInt8) : Bool := (hexDigit? b).isSome

/-- The number that a run of digits spells in the given base; bytes that are
no digits count as 0. -/
def numberOf (base : Nat) (digits : Text) : Nat :=
  digits.foldl (fun n b => n * base + (hexDigit? b).getD 0) 0

/-- The upper case digit of a value below 16. -/
def digitByte (n : Nat) : UInt8 :=
  if n < 10 then UInt8.ofNat (0x30 + n) else UInt8.ofNat (0x41 + (n - 10))

/-- Decimal digits without leading zeros. -/
def decimal (n : Nat) : Text :=
  if n < 10 then [digitByte n] else decimal (n / 10) ++ [digitByte (n % 10)]

/-- A decimal integer with a `-` in front of a negative one. -/
def integer (n : Int) : Text := if n < 0 then Ascii.minus :: decimal n.natAbs else decimal n.natAbs

/-- Decimal digits with a comma before every group of three. -/
def groupedNat (n : Nat) : Text :=
  if n < 1000 then decimal n
  else groupedNat (n / 1000) ++
    [Ascii.comma, digitByte (n / 100 % 10), digitByte (n / 10 % 10), digitByte (n % 10)]

/-- The integer format of messages: signed, in groups of three digits. -/
def grouped (n : Int) : Text :=
  if n < 0 then Ascii.minus :: groupedNat n.natAbs else groupedNat n.natAbs

/-- Two upper case hexadecimal digits. -/
def hexByte (b : UInt8) : Text := [digitByte (b.toNat / 16), digitByte (b.toNat % 16)]

/-- Four upper case hexadecimal digits. -/
def hexWord (w : UInt16) : Text :=
  [digitByte (w.toNat / 4096), digitByte (w.toNat / 256 % 16), digitByte (w.toNat / 16 % 16),
    digitByte (w.toNat % 16)]

/-- Bytes as pairs of hexadecimal digits with a blank between them. -/
def hexDump : Text → Text
  | [] => []
  | [b] => hexByte b
  | b :: rest => hexByte b ++ Ascii.space :: hexDump rest

/-- Blanks are added on the right until the text has the given width. -/
def padRight (width : Nat) (t : Text) : Text := t ++ List.replicate (width - t.length) Ascii.space

/-- A message as a line of its own; one that ends in a newline is left as it is. -/
def asLine (t : Text) : Text :=
  if t.getLast? == some Ascii.newline then t else t ++ [Ascii.newline]

/-! ## Words -/

/-- The low and high byte of a word, in the order the 6502 stores them. -/
def littleEndian (w : UInt16) : Text := [w.toUInt8, (w >>> 8).toUInt8]

/-- Whether a text begins with the bytes of another. -/
def startsWith (start : Text) (t : Text) : Bool := start.isPrefixOf t

end Asm6502
