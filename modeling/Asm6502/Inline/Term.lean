-- Inline programs as trees: terms, and the statements that assign them.
-- Binary operators come in ten levels; comparisons do not chain.
import Asm6502.Inline.Token

namespace Asm6502

namespace Inline

/-! ## Trees -/

inductive UnaryOp where
  | not
  | minus
  | plus
  | invert
deriving DecidableEq, Repr

inductive BinaryOp where
  | or
  | and
  | equal
  | notEqual
  | less
  | greater
  | lessEqual
  | greaterEqual
  | member
  | notMember
  | bitOr
  | bitXor
  | bitAnd
  | shiftLeft
  | shiftRight
  | add
  | sub
  | mul
  | div
  | floorDiv
  | mod
deriving DecidableEq, Repr

inductive Passing where
  | plain
  /-- `key=term`. -/
  | named (key : Text)
  /-- `*term`: each item of a sequence is an argument. -/
  | spread
  /-- `**term`: each entry of a mapping is a named argument. -/
  | spreadNamed
deriving DecidableEq, Repr

inductive Term where
  | name (name : Text)
  | int (value : Nat)
  | float (mantissa : Nat) (exponent : Int)
  | string (content : Text)
  | unary (op : UnaryOp) (x : Term)
  | binary (op : BinaryOp) (x y : Term)
  /-- `yes if condition else no`. -/
  | choice (yes condition no : Term)
  | paren (x : Term)
  | tuple (items : List Term)
  | list (items : List Term)
  | index (x i : Term)
  | attribute (x : Term) (name : Text)
  | call (f : Term) (args : List (Passing × Term))
deriving Repr

inductive Command where
  /-- `target = value`, or `target op= value`. -/
  | assign (op : Option BinaryOp) (target value : Term)
  | expression (term : Term)
  | pass
  /-- `break`, `continue` or `return`, which have no place in a program. -/
  | leave (value : Option Term)
deriving Repr

/-! ## Operators -/

/-- The binary operators of a level, loosest first; the level of `not` has
none. -/
def operators : Nat → List (Token × BinaryOp)
  | 0 => [(.keyword "or", .or)]
  | 1 => [(.keyword "and", .and)]
  | 3 =>
    [(.sign "==", .equal), (.sign "!=", .notEqual), (.sign "<", .less), (.sign ">", .greater),
      (.sign "<=", .lessEqual), (.sign ">=", .greaterEqual), (.keyword "in", .member)]
  | 4 => [(.sign "|", .bitOr)]
  | 5 => [(.sign "^", .bitXor)]
  | 6 => [(.sign "&", .bitAnd)]
  | 7 => [(.sign "<<", .shiftLeft), (.sign ">>", .shiftRight)]
  | 8 => [(.sign "-", .sub), (.sign "+", .add)]
  | 9 => [(.sign "*", .mul), (.sign "%", .mod), (.sign "/", .div), (.sign "//", .floorDiv)]
  | _ => []

def notLevel : Nat := 2

def comparisonLevel : Nat := 3

def levels : Nat := 10

def operator? (level : Nat) : List Token → Option (BinaryOp × List Token)
  | .keyword "not" :: .keyword "in" :: rest =>
    if level = comparisonLevel then some (.notMember, rest) else none
  | token :: rest => ((operators level).lookup token).map (·, rest)
  | [] => none

def assignment? : List Token → Option (Option BinaryOp × List Token)
  | .sign s :: rest =>
    ([("=", none), ("+=", some .add), ("-=", some .sub), ("*=", some .mul), ("/=", some .div),
      ("//=", some .floorDiv), ("%=", some .mod), ("&=", some .bitAnd), ("|=", some .bitOr),
      ("^=", some .bitXor), ("<<=", some .shiftLeft), (">>=", some .shiftRight)].lookup s).map
      (·, rest)
  | _ => none

/-- Whether a list of terms ends before these tokens. -/
def endsList : List Token → Bool
  | [] | .newline :: _ => true
  | .sign s :: _ => ["=", "]", ")", ";"].contains s
  | _ => false

/-! ## Reading terms -/

namespace Term

def expect (token : Token) : List Token → Option (List Token)
  | t :: rest => if t = token then some rest else none
  | [] => none

mutual

/-- One term: a choice, or a chain of operators. -/
def conditional : Nat → List Token → Option (Term × List Token)
  | 0, _ => none
  | n + 1, ts => do
    let (yes, ts) ← level n 0 ts
    match ts with
    | .keyword "if" :: rest =>
      let (condition, ts) ← level n 0 rest
      let ts ← expect (.keyword "else") ts
      let (no, ts) ← conditional n ts
      return (.choice yes condition no, ts)
    | _ => return (yes, ts)

/-- A chain of the operators of a level. -/
def level : Nat → Nat → List Token → Option (Term × List Token)
  | 0, _, _ => none
  | n + 1, k, ts =>
    if levels ≤ k then do
      let (x, ts) ← primary n ts
      suffixes n x ts
    else
      match decide (k = notLevel), ts with
      | true, .keyword "not" :: rest => do
        let (x, ts) ← level n k rest
        return (.unary .not x, ts)
      | _, _ => do
        let (x, ts) ← level n (k + 1) ts
        chain n k true x ts

/-- The rest of a chain behind its first operand. -/
def chain : Nat → Nat → Bool → Term → List Token → Option (Term × List Token)
  | 0, _, _, _, _ => none
  | n + 1, k, first, x, ts =>
    match operator? k ts with
    | none => some (x, ts)
    | some (op, rest) =>
      if !first && k = comparisonLevel then none
      else do
        let (y, ts) ← level n (k + 1) rest
        chain n k false (.binary op x y) ts

/-- Attributes, indices and calls behind a term. -/
def suffixes : Nat → Term → List Token → Option (Term × List Token)
  | 0, _, _ => none
  | n + 1, x, ts =>
    match ts with
    | .sign "." :: .name field :: rest => suffixes n (.attribute x field) rest
    | .sign "." :: _ => none
    | .sign "[" :: rest => do
      let (i, ts) ← expression n false rest
      let ts ← expect (.sign "]") ts
      suffixes n (.index x i) ts
    | .sign "(" :: rest => do
      let (args, ts) ← arguments n rest
      suffixes n (.call x args) ts
    | _ => some (x, ts)

def arguments : Nat → List Token → Option (List (Passing × Term) × List Token)
  | 0, _ => none
  | n + 1, ts =>
    match ts with
    | .sign ")" :: rest => some ([], rest)
    | _ => do
      let (arg, ts) ← argument n ts
      match ts with
      | .sign ")" :: rest => return ([arg], rest)
      | .sign "," :: rest => do
        let (args, ts) ← arguments n rest
        return (arg :: args, ts)
      | _ => none

/-- One argument. The key of a named one is a bare name. -/
def argument : Nat → List Token → Option ((Passing × Term) × List Token)
  | 0, _ => none
  | n + 1, ts =>
    match ts with
    | .sign "*" :: rest => do
      let (x, ts) ← conditional n rest
      return ((.spread, x), ts)
    | .sign "**" :: rest => do
      let (x, ts) ← conditional n rest
      return ((.spreadNamed, x), ts)
    | .name key :: .sign "=" :: rest => do
      let (x, ts) ← conditional n rest
      return ((.named key, x), ts)
    | _ => do
      let (x, ts) ← conditional n ts
      return ((.plain, x), ts)

/-- A literal, a name, a bracketed term or a term behind a prefix sign. -/
def primary : Nat → List Token → Option (Term × List Token)
  | 0, _ => none
  | n + 1, ts =>
    match ts with
    | .name text :: rest => some (.name text, rest)
    | .int value :: rest => some (.int value, rest)
    | .float mantissa exponent :: rest => some (.float mantissa exponent, rest)
    | .string content :: rest => some (.string content, rest)
    | .sign "(" :: .sign ")" :: rest => some (.tuple [], rest)
    | .sign "(" :: rest => do
      let (x, ts) ← expression n true rest
      let ts ← expect (.sign ")") ts
      return (.paren x, ts)
    | .sign "[" :: .sign "]" :: rest => some (.list [], rest)
    | .sign "[" :: rest => do
      let (x, ts) ← conditional n rest
      let (xs, ts) ← items n true ts
      let ts ← expect (.sign "]") ts
      return (.list (x :: xs), ts)
    | .sign "-" :: rest => signed n .minus rest
    | .sign "+" :: rest => signed n .plus rest
    | .sign "~" :: rest => signed n .invert rest
    | _ => none

def signed : Nat → UnaryOp → List Token → Option (Term × List Token)
  | 0, _, _ => none
  | n + 1, op, ts => do
    let (x, ts) ← primary n ts
    let (x, ts) ← suffixes n x ts
    return (.unary op x, ts)

/-- A term, or a tuple of terms with commas between them. -/
def expression : Nat → Bool → List Token → Option (Term × List Token)
  | 0, _, _ => none
  | n + 1, trailing, ts => do
    let (x, ts) ← conditional n ts
    match ts with
    | .sign "," :: _ => do
      let (xs, ts) ← items n trailing ts
      return (.tuple (x :: xs), ts)
    | _ => return (x, ts)

/-- The terms behind commas; a comma at the end is allowed only in brackets. -/
def items : Nat → Bool → List Token → Option (List Term × List Token)
  | 0, _, _ => none
  | n + 1, trailing, ts =>
    match ts with
    | .sign "," :: rest =>
      if endsList rest then if trailing then some ([], rest) else none
      else do
        let (x, ts) ← conditional n rest
        let (xs, ts) ← items n trailing ts
        return (x :: xs, ts)
    | _ => some ([], ts)

end

end Term

/-! ## Reading programs -/

def command (fuel : Nat) (ts : List Token) : Option (Command × List Token) :=
  match ts with
  | .keyword "pass" :: rest => some (.pass, rest)
  | .keyword "break" :: rest | .keyword "continue" :: rest => some (.leave none, rest)
  | .keyword "return" :: rest =>
    if endsList rest then some (.leave none, rest)
    else (Term.expression fuel false rest).map fun (x, ts) => (.leave (some x), ts)
  | _ => do
    let (x, ts) ← Term.expression fuel false ts
    match assignment? ts with
    | none => return (.expression x, ts)
    | some (op, rest) =>
      let (y, ts) ← Term.expression fuel false rest
      return (.assign op x y, ts)

/-- The statements of a program. A `;` or a line end stands behind each one, but
need not stand behind the last. -/
def commands (fuel : Nat) : Nat → List Token → Option (List Command)
  | 0, _ => none
  | _, [] => some []
  | n + 1, .newline :: rest => commands fuel n rest
  | n + 1, ts => do
    let (c, ts) ← command fuel ts
    match ts with
    | [] => return [c]
    | .newline :: rest | .sign ";" :: rest => return c :: (← commands fuel n rest)
    | _ => none

/-- Enough steps to read any program of so many tokens: a term passes through
every level once for each token. -/
def fuelFor (ts : List Token) : Nat := (ts.length + 1) * (levels + 6)

def parse (program : Text) : Option (List Command) := do
  let ts ← tokens program
  commands (fuelFor ts) (ts.length + 1) ts

end Inline

end Asm6502
