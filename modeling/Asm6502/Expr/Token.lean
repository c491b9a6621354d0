-- Operand text as tokens: literals, names and single punctuation bytes.
-- Every step of the scanner takes at least one byte, so it ends.
import Asm6502.Text

namespace Asm6502

inductive Token where
  /-- The digits of a hexadecimal literal, without the `$`. -/
  | hex (digits : Text)
  /-- The digits of a decimal literal. -/
  | decimal (digits : Text)
  /-- The content of a quoted string, without quotes and escapes. -/
  | string (content : Text)
  /-- A label or register name. -/
  | name (name : Text)
  /-- One punctuation byte. -/
  | mark (byte : UInt8)
deriving DecidableEq, Repr

namespace Token

/-! ## Byte classes of tokens -/

/-- A byte that may follow the first byte of a name. -/
def isNameByte (b : UInt8) : Bool := isWordByte b || b == Ascii.dot

/-- A byte that starts a name only if a letter, a digit or `_` follows it. -/
def isNameSigil (b : UInt8) : Bool :=
  b == Ascii.dot || b == Ascii.underscore || b == Ascii.hash

def marks : Text := ascii "-<>=/\\+_#!^~[]:?*$@;()&|,"

def isMark (b : UInt8) : Bool := marks.contains b

/-! ## Scanning -/

/-- Reads a string behind its opening quote: a backslash takes the next byte
as it is, but never a newline. Gives the content and the text behind the
closing quote. -/
def stringBody : Text → Option (Text × Text)
  | [] => none
  | b :: rest =>
    if b == Ascii.quote then some ([], rest)
    else if b == Ascii.backslash then
      match rest with
      | [] => none
      | c :: rest' =>
        if c == Ascii.newline then none
        else (stringBody rest').map fun (content, after) => (c :: content, after)
    else (stringBody rest).map fun (content, after) => (b :: content, after)

/-- Whether the first byte of a text is in a class. -/
def headIs (p : UInt8 → Bool) (t : Text) : Bool := t.head?.any p

def next : Text → Option (Token × Text)
  | [] => none
  | b :: rest =>
    if b == Ascii.quote then
      (stringBody rest).map fun (content, after) => (.string content, after)
    else if b == Ascii.dollar && headIs isHexDigit rest then
      some (.hex (rest.takeWhile isHexDigit), rest.dropWhile isHexDigit)
    else if isDigit b then
      some (.decimal (b :: rest.takeWhile isDigit), rest.dropWhile isDigit)
    else if isLetter b || (isNameSigil b && headIs isWordByte rest) then
      some (.name (b :: rest.takeWhile isNameByte), rest.dropWhile isNameByte)
    else if isMark b then some (.mark b, rest)
    else none

theorem stringBody_length {t content after : Text} (h : stringBody t = some (content, after)) :
    after.length < t.length := by
  fun_induction stringBody t generalizing content after with
  | case1 => simp at h
  | case2 => simp_all
  | case3 => simp at h
  | case4 => simp at h
  | case5 b _ _ c rest' _ ih =>
    obtain ⟨⟨x, y⟩, hxy, he⟩ := Option.map_eq_some_iff.1 h
    have := ih hxy
    simp_all
    omega
  | case6 b rest _ _ ih =>
    obtain ⟨⟨x, y⟩, hxy, he⟩ := Option.map_eq_some_iff.1 h
    have := ih hxy
    simp_all
    omega

theorem next_length {t rest : Text} {token : Token} (h : next t = some (token, rest)) :
    rest.length < t.length := by
  cases t with
  | nil => simp [next] at h
  | cons b tail =>
    have drop (p : UInt8 → Bool) : (tail.dropWhile p).length < tail.length + 1 :=
      Nat.lt_succ_of_le (List.dropWhile_sublist p).length_le
    simp only [next] at h
    split at h
    · obtain ⟨⟨x, y⟩, hxy, he⟩ := Option.map_eq_some_iff.1 h
      have := stringBody_length hxy
      simp_all
      omega
    · split at h
      · obtain ⟨_, rfl⟩ := Prod.mk.inj (Option.some.inj h)
        exact drop _
      · split at h
        · obtain ⟨_, rfl⟩ := Prod.mk.inj (Option.some.inj h)
          exact drop _
        · split at h
          · obtain ⟨_, rfl⟩ := Prod.mk.inj (Option.some.inj h)
            exact drop _
          · split at h <;> simp_all

/-- The tokens of a text, or nothing if some byte starts no token. -/
def scan (t : Text) : Option (List Token) :=
  match t with
  | [] => some []
  | b :: tail =>
    match h : next (b :: tail) with
    | none => none
    | some (token, rest) =>
      have := next_length h
      (scan rest).map (token :: ·)
termination_by t.length
decreasing_by assumption

/-! ## Numbers -/

/-- Whether a token is no number, or a number that its literal can hold: four
hexadecimal digits, or a decimal below 65536. -/
def inRange : Token → Bool
  | .hex digits => digits.length ≤ 4
  | .decimal digits => numberOf 10 digits < 0x10000
  | _ => true

def numberText : Token → Text
  | .hex digits => Ascii.dollar :: digits
  | .decimal digits => digits
  | _ => []

end Token

end Asm6502
