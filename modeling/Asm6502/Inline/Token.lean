-- The tokens of inline programs: names, keywords, numbers, quoted strings,
-- signs, and the ends of lines.
import Asm6502.Text.Letters
import Asm6502.Text.Utf8

namespace Asm6502

namespace Inline

inductive Token where
  | name (name : Text)
  | keyword (word : String)
  | int (value : Nat)
  /-- A decimal fraction, `mantissa * 10 ^ exponent`. -/
  | float (mantissa : Nat) (exponent : Int)
  | string (content : Text)
  | sign (sign : String)
  /-- The end of a line that holds a statement. -/
  | newline
deriving DecidableEq, Repr

namespace Token

/-! ## Names -/

/-- Whether a code point may stand in a name: a letter, an ASCII digit or `_`. -/
def isNameCode (code : Nat) : Bool :=
  if code < 0x80 then isWordByte (UInt8.ofNat code) else isWideLetter code

/-- The words that are no names; the reserved ones, from `as` on, have no use at
all. -/
def keywords : List String :=
  ["and", "break", "continue", "def", "elif", "else", "for", "if", "in", "lambda", "load", "not",
    "or", "pass", "return", "while", "as", "async", "await", "class", "del", "except", "finally",
    "from", "global", "import", "is", "nonlocal", "raise", "try", "with", "yield"]

/-- A name, unless it is a keyword. -/
def ofWord (word : Text) : Token :=
  match keywords.find? fun k => ascii k == word with
  | some k => .keyword k
  | none => .name word

/-! ## Numbers -/

def digits (base : Nat) (t : Text) : Text × Text :=
  t.span fun b => (hexDigit? b).any (· < base)

/-- A literal behind `0x`, `0o` or `0b`. Those of base 8 and 2 must fit a signed
64 bit word. -/
def based (base : Nat) (t : Text) : Option (Token × Text) :=
  let (run, rest) := digits base t
  let value := numberOf base run
  if run.isEmpty || (base != 16 && 0x8000000000000000 ≤ value) then none
  else some (.int value, rest)

/-- The largest exponent of a finite double, rounded up. -/
def maxExponent : Int := 310

/-- A float token, unless the number is too large for a double. Numbers far
below the smallest double become 0. -/
def ofScientific (mantissa : Nat) (exponent : Int) : Option Token :=
  let magnitude : Int := (decimal mantissa).length + exponent
  if mantissa = 0 || magnitude < -400 then some (.float 0 0)
  else if maxExponent < magnitude then none
  else
    let value := Float.ofScientific mantissa (exponent < 0) exponent.natAbs
    if value.isInf then none else some (.float mantissa exponent)

def exponentPart (mantissa : Nat) (places : Nat) (t : Text) : Option (Token × Text) :=
  let finish (exponent : Int) (rest : Text) : Option (Token × Text) :=
    (ofScientific mantissa (exponent - places)).map fun token => (token, rest)
  match t with
  | b :: rest =>
    if b == 0x65 || b == 0x45 then
      let (negative, rest) := match rest with
        | Ascii.minus :: after => (true, after)
        | Ascii.plus :: after => (false, after)
        | _ => (false, rest)
      let (run, after) := digits 10 rest
      if run.isEmpty then none
      else finish (if negative then -(numberOf 10 run : Int) else numberOf 10 run) after
    else finish 0 t
  | [] => finish 0 t

def fraction (whole : Text) (t : Text) : Option (Token × Text) :=
  match t with
  | Ascii.dot :: rest =>
    let (run, after) := digits 10 rest
    exponentPart (numberOf 10 (whole ++ run)) run.length after
  | _ => exponentPart (numberOf 10 whole) 0 t

/-- Reads a number that starts with a digit. A whole number that starts with 0
must be 0. -/
def number (t : Text) : Option (Token × Text) :=
  match t with
  | 0x30 :: 0x78 :: rest | 0x30 :: 0x58 :: rest => based 16 rest
  | 0x30 :: 0x6F :: rest | 0x30 :: 0x4F :: rest => based 8 rest
  | 0x30 :: 0x62 :: rest | 0x30 :: 0x42 :: rest => based 2 rest
  | _ =>
    let (run, rest) := digits 10 t
    if rest.head?.any fun b => b == Ascii.dot || b == 0x65 || b == 0x45 then fraction run rest
    else if 1 < run.length && run.head? == some Ascii.zero && !run.all (· == Ascii.zero) then none
    else some (.int (numberOf 10 run), rest)

/-! ## Strings -/

/-- The text between quotes, escapes and all, and the text behind it. `mark` is
the closing mark: one quote, or three. -/
def quoted (mark : Text) : Text → Option (Text × Text)
  | [] => none
  | b :: rest =>
    if startsWith mark (b :: rest) then some ([], rest.drop (mark.length - 1))
    else if b == Ascii.newline && mark.length == 1 then none
    else if b == Ascii.backslash then
      match rest with
      | [] => none
      | c :: after => (quoted mark after).map fun (body, end_) => (b :: c :: body, end_)
    else (quoted mark rest).map fun (body, end_) => (b :: body, end_)

def simpleEscape? (b : UInt8) : Option UInt8 :=
  [(0x61, 0x07), (0x62, 0x08), (0x66, 0x0C), (0x6E, 0x0A), (0x72, 0x0D), (0x74, 0x09),
    (0x76, 0x0B), (Ascii.backslash, Ascii.backslash), (Ascii.apostrophe, Ascii.apostrophe),
    (Ascii.quote, Ascii.quote)].lookup b

def hexValue? (count : Nat) (t : Text) : Option (Nat × Text) :=
  let run := t.take count
  if run.length = count && run.all isHexDigit then some (numberOf 16 run, t.drop count) else none

/-- The bytes that an escape stands for, and the text behind it. An escape by
number must stay in ASCII, one by code point must name one. -/
def escape? (t : Text) : Option (Text × Text) :=
  match t with
  | [] => none
  | b :: rest =>
    match simpleEscape? b with
    | some c => some ([c], rest)
    | none =>
      if b == Ascii.newline then some ([], rest)
      else if 0x30 ≤ b && b ≤ 0x37 then
        let run := (t.take 3).takeWhile fun c => 0x30 ≤ c && c ≤ 0x37
        let value := numberOf 8 run
        if value < 128 then some ([UInt8.ofNat value], t.drop run.length) else none
      else if b == 0x78 then
        (hexValue? 2 rest).bind fun (value, after) =>
          if value < 128 then some ([UInt8.ofNat value], after) else none
      else if b == 0x75 || b == 0x55 then
        (hexValue? (if b == 0x75 then 4 else 8) rest).bind fun (value, after) =>
          if value ≤ 0x10FFFF && !(0xD800 ≤ value && value ≤ 0xDFFF) then
            some (Utf8.encode value, after)
          else none
      else none

def unescape (fuel : Nat) (t : Text) : Option Text :=
  match fuel, t with
  | _, [] => some []
  | 0, _ => none
  | fuel + 1, Ascii.backslash :: rest =>
    (escape? rest).bind fun (bytes, after) => (unescape fuel after).map (bytes ++ ·)
  | fuel + 1, b :: rest => (unescape fuel rest).map (b :: ·)

def string? (quote : UInt8) (t : Text) : Option (Token × Text) :=
  let three := [quote, quote, quote]
  let mark := if startsWith three t then three else [quote]
  (quoted mark (t.drop mark.length)).bind fun (body, rest) =>
    let body := Utf8.repair body
    (unescape body.length body).map fun content => (.string content, rest)

/-! ## Signs -/

/-- The signs, longer ones before their beginnings. -/
def signs : List String :=
  ["<<=", ">>=", "//=", "==", "!=", "<=", ">=", "+=", "-=", "*=", "/=", "%=", "&=", "|=", "^=",
    "<<", ">>", "//", "**", "=", "<", ">", "+", "-", "*", "/", "%", "&", "|", "^", "~", "(", ")",
    "[", "]", ",", ":", ";", "."]

def sign? (t : Text) : Option (Token × Text) :=
  (signs.find? fun s => startsWith (ascii s) t).map fun s => (.sign s, t.drop s.length)

/-! ## Whole programs -/

def next (t : Text) : Option (Token × Text) :=
  match t with
  | [] => none
  | b :: rest =>
    if b == Ascii.quote || b == Ascii.apostrophe then string? b t
    else if isDigit b then number t
    else if b == Ascii.dot && rest.head?.any isDigit then fraction [] t
    else
      match Utf8.span isNameCode t with
      | ([], _) => sign? t
      | (word, after) => some (ofWord word, after)

/-- The number of open brackets behind a token; a closing bracket needs one. -/
def depthAfter? (depth : Nat) : Token → Option Nat
  | .sign "(" | .sign "[" => some (depth + 1)
  | .sign ")" | .sign "]" => if depth = 0 then none else some (depth - 1)
  | _ => some depth

def isGap (b : UInt8) : Bool := b == Ascii.space || b == 0x09

def isVoid (t : Text) : Bool :=
  t.head?.all fun b => b == Ascii.newline || b == Ascii.hash || b == Ascii.null

/-- The tokens of a text, or nothing if it has a byte that starts none. `depth`
counts the open brackets, and `fresh` says that the line has no token yet. A
statement is not indented. A `#` begins a comment, a backslash joins a line to the
next one, brackets join lines too, and a null byte ends the program. -/
def scan (fuel : Nat) (depth : Nat) (fresh : Bool) (t : Text) : Option (List Token) :=
  match fuel, t with
  | _, [] => some []
  | 0, _ => none
  | fuel + 1, b :: rest =>
    if isGap b then
      let line := rest.dropWhile isGap
      if fresh && depth == 0 && !isVoid line then none else scan fuel depth fresh line
    else if b == Ascii.null then some []
    else if b == Ascii.hash then
      scan fuel depth fresh (rest.dropWhile fun c => c != Ascii.newline && c != Ascii.null)
    else if b == Ascii.newline then
      if fresh || depth != 0 then scan fuel depth true rest
      else (scan fuel depth true rest).map (.newline :: ·)
    else if b == Ascii.backslash then
      if rest.head? == some Ascii.newline then scan fuel depth false rest.tail else none
    else do
      let (token, after) ← next t
      let depth ← depthAfter? depth token
      let tokens ← scan fuel depth false after
      return token :: tokens

/-- A text with each of its line ends, a carriage return, a newline or both, as
one newline. -/
def withNewlines : Text → Text
  | Ascii.carriageReturn :: Ascii.newline :: rest => Ascii.newline :: withNewlines rest
  | Ascii.carriageReturn :: rest => Ascii.newline :: withNewlines rest
  | b :: rest => b :: withNewlines rest
  | [] => []

end Token

def tokens (program : Text) : Option (List Token) :=
  let program := Token.withNewlines program
  Token.scan program.length 0 true program

end Inline

end Asm6502
