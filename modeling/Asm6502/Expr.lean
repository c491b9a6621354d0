-- Operand expressions as trees, and the text that a tree is written as.
import Asm6502.Operator

namespace Asm6502

inductive Expr where
  /-- The operand of a bare command such as `@`. -/
  | empty
  /-- A decimal literal, `31`. -/
  | decimal (value : UInt16)
  /-- A hexadecimal literal of one or two digits, `$1F`. -/
  | byte (value : UInt8)
  /-- A hexadecimal literal of three or four digits, `$C000`. -/
  | word (value : UInt16)
  /-- A quoted string. -/
  | string (content : Text)
  /-- A label or a register. -/
  | ident (name : Text)
  /-- The high byte of a label's address, `>label`. -/
  | highByte (inner : Expr)
  /-- The low byte of a label's address, `<label`. -/
  | lowByte (inner : Expr)
  /-- The memory at an address, `(label)`. -/
  | paren (inner : Expr)
  /-- The memory behind a zero page pointer, `[pointer]`. -/
  | bracket (inner : Expr)
  /-- A run of one system operator, `+`, `++`, `!`. -/
  | system (run : Text)
  | binary (left : Expr) (op : Operator) (right : Expr)
deriving DecidableEq, Repr

namespace Expr

instance : Inhabited Expr := ⟨.empty⟩

def isEmpty : Expr → Bool
  | .empty => true
  | _ => false

/-- The elements of a right-leaning comma chain; any other expression is its
only element. -/
def elements : Expr → List Expr
  | .binary left .comma right => left :: elements right
  | e => [e]

/-! ## Writing -/

/-- A quote or a backslash inside a string is written behind a backslash. -/
def escape : Text → Text
  | [] => []
  | b :: rest =>
    if b == Ascii.quote || b == Ascii.backslash then Ascii.backslash :: b :: escape rest
    else b :: escape rest

def render : Expr → Text
  | .empty => []
  | .decimal n => Asm6502.decimal n.toNat
  | .byte b => Ascii.dollar :: hexByte b
  | .word w => Ascii.dollar :: hexWord w
  | .string s => Ascii.quote :: (escape s ++ [Ascii.quote])
  | .ident name => name
  | .highByte e => Ascii.greater :: e.render
  | .lowByte e => Ascii.less :: e.render
  | .paren e => Ascii.leftParen :: (e.render ++ [Ascii.rightParen])
  | .bracket e => Ascii.leftBracket :: (e.render ++ [Ascii.rightBracket])
  | .system run => run
  | .binary left op right => left.render ++ op.render ++ right.render

end Expr

end Asm6502
