-- Reading operand text. Arithmetic has no precedence and groups to the
-- right: `lab-1-1` is `lab-(1-1)`. A comparison joins two arithmetic
-- expressions, and a list joins comparisons with commas.
--
-- An opening bracket without its closing bracket is a system operator, but
-- only if the list behind it stops within the lookahead of the reader: a
-- longer unclosed group is an error of the whole text.
import Asm6502.Expr
import Asm6502.Expr.Token

namespace Asm6502

namespace Grammar

inductive Reading (tokens : List Token) where
  /-- A phrase was read, and something was consumed. -/
  | matched (e : Expr) (rest : List Token) (shorter : rest.length < tokens.length)
  /-- No phrase starts here. -/
  | absent
  /-- The whole text is refused. -/
  | aborted

/-- How many tokens an unclosed group may run over, its bracket included,
before the text is refused. -/
def lookahead : Nat := 4

/-! ## Token meanings -/

/-- One or two hexadecimal digits are a byte, more are a word. -/
def hexLiteral (digits : Text) : Expr :=
  if digits.length ≤ 2 then .byte (UInt8.ofNat (numberOf 16 digits))
  else .word (UInt16.ofNat (numberOf 16 digits))

def decimalLiteral (digits : Text) : Expr := .decimal (UInt16.ofNat (numberOf 10 digits))

/-- The bytes that repeat to form a system operator. -/
def runBytes : Text := ascii "-<>=/\\+_#!^~]:?*$@;)"

def runLength (b : UInt8) : List Token → Nat
  | .mark c :: rest => if c == b then runLength b rest + 1 else 0
  | _ => 0

def arithmeticOperator? : Token → Option Operator
  | .mark b =>
    if b == Ascii.plus then some .add
    else if b == Ascii.minus then some .sub
    else if b == Ascii.star then some .mul
    else if b == Ascii.slash then some .div
    else if b == 0x26 then some .and
    else if b == 0x7C then some .or
    else if b == 0x5E then some .xor
    else none
  | _ => none

def comparisonOperator? : Token → Option Operator
  | .mark b =>
    if b == Ascii.greater then some .greater
    else if b == Ascii.less then some .less
    else if b == Ascii.equals then some .equal
    else if b == Ascii.backslash then some .notEqual
    else none
  | _ => none

def commaOperator? : Token → Option Operator
  | .mark b => if b == Ascii.comma then some .comma else none
  | _ => none

/-! ## Steps of the reader -/

namespace Reading

/-- Reads on behind a phrase: if an operator follows, and behind it another
phrase, the two are joined; otherwise the first phrase stands alone. -/
def joined {tokens : List Token} (left : Reading tokens) (op? : Token → Option Operator)
    (right : (after : List Token) → after.length < tokens.length → Reading after) :
    Reading tokens :=
  match left with
  | .matched l (token :: after) h =>
    match op? token with
    | some op =>
      match right after (by simp at h; omega) with
      | .matched r rest h' => .matched (.binary l op r) rest (by simp at h; omega)
      | .absent => .matched l (token :: after) h
      | .aborted => .aborted
    | none => .matched l (token :: after) h
  | .matched l [] h => .matched l [] h
  | .absent => .absent
  | .aborted => .aborted

/-- Closes a group whose list has been read. Without the closing bracket, or
without a list, the opening bracket is a system operator of its own. -/
def grouped {rest : List Token} (inner : Reading rest) (opening closing : UInt8)
    (wrap : Expr → Expr) : Reading (.mark opening :: rest) :=
  match inner with
  | .matched e rest' h =>
    if rest'.head? = some (.mark closing) then
      .matched (wrap e) rest'.tail (by rw [List.length_tail, List.length_cons]; omega)
    else if lookahead < rest.length + 1 - rest'.length then .aborted
    else .matched (.system [opening]) rest (by simp)
  | .absent => .matched (.system [opening]) rest (by simp)
  | .aborted => .aborted

end Reading

def systemRun (b : UInt8) (rest : List Token) : Reading (.mark b :: rest) :=
  if runBytes.contains b then
    .matched (.system (List.replicate (runLength b rest + 1) b)) (rest.drop (runLength b rest))
      (by rw [List.length_drop, List.length_cons]; omega)
  else .absent

/-- A byte of a name, `<name` or `>name`, or else a run. -/
def markedTerm (b : UInt8) (rest : List Token) : Reading (.mark b :: rest) :=
  match rest with
  | .name name :: after =>
    have shorter : after.length < (Token.mark b :: .name name :: after).length := by
      rw [List.length_cons, List.length_cons]
      omega
    if b == Ascii.less then .matched (.lowByte (.ident name)) after shorter
    else if b == Ascii.greater then .matched (.highByte (.ident name)) after shorter
    else systemRun b (.name name :: after)
  | rest => systemRun b rest

/-! ## Phrases -/

mutual

/-- A comparison, or a comparison, a comma and a list. -/
def list (tokens : List Token) : Reading tokens :=
  (comparison tokens).joined commaOperator? fun after _ => list after
termination_by 4 * tokens.length + 3

/-- An arithmetic expression, or two of them with a comparison between. -/
def comparison (tokens : List Token) : Reading tokens :=
  (arithmetic tokens).joined comparisonOperator? fun after _ => arithmetic after
termination_by 4 * tokens.length + 2

/-- A term, or a term, an operator and an arithmetic expression. -/
def arithmetic (tokens : List Token) : Reading tokens :=
  (term tokens).joined arithmeticOperator? fun after _ => arithmetic after
termination_by 4 * tokens.length + 1

/-- A literal, a name, a byte of a name, a group or a system operator. -/
def term (tokens : List Token) : Reading tokens :=
  match tokens with
  | [] => .absent
  | .hex digits :: rest => .matched (hexLiteral digits) rest (by simp)
  | .decimal digits :: rest => .matched (decimalLiteral digits) rest (by simp)
  | .string content :: rest => .matched (.string content) rest (by simp)
  | .name name :: rest => .matched (.ident name) rest (by simp)
  | .mark b :: rest =>
    if b == Ascii.leftParen then (list rest).grouped b Ascii.rightParen .paren
    else if b == Ascii.leftBracket then (list rest).grouped b Ascii.rightBracket .bracket
    else markedTerm b rest
termination_by 4 * tokens.length

end

end Grammar

namespace Expr

inductive ParseError where
  | notExpression (text : Text)
  | notNumber (text : Text)
  | unterminatedString (text : Text)
deriving DecidableEq, Repr

def ParseError.message : ParseError → Text
  | .notExpression text => ascii "'" ++ text ++ ascii "' is not a valid expression"
  | .notNumber text => ascii "'" ++ text ++ ascii "' is not a number"
  | .unterminatedString text => ascii "unterminated string in '" ++ text ++ ascii "'"

/-- Whether a text ends inside a string, given whether it starts inside one.
A backslash inside a string takes the next byte with it. -/
def endsQuoted (quoted : Bool) : Text → Bool
  | [] => quoted
  | b :: rest =>
    if b == Ascii.quote then endsQuoted (!quoted) rest
    else if b == Ascii.backslash && quoted then
      match rest with
      | [] => quoted
      | _ :: rest' => endsQuoted quoted rest'
    else endsQuoted quoted rest

def refusal (text : Text) : ParseError :=
  if endsQuoted false text then .unterminatedString text else .notExpression text

/-- Reads operand text; the empty text is the empty expression. Numbers are
checked once the whole text is read, the first one that is too large counts. -/
def parse (text : Text) : Except ParseError Expr :=
  if text.isEmpty then .ok .empty
  else
    match Token.scan text with
    | none => .error (refusal text)
    | some tokens =>
      match Grammar.list tokens with
      | .matched e [] _ =>
        match tokens.find? fun token => !token.inRange with
        | some token => .error (.notNumber token.numberText)
        | none => .ok e
      | _ => .error (refusal text)

end Expr

end Asm6502
