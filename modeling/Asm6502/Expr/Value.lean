-- What an expression stands for: an address, which knows whether it lies in
-- the zero page, or a plain word.
import Asm6502.Expr
import Asm6502.Label

namespace Asm6502

inductive ValueError where
  | label (fault : Label.Fault)
  | divideByZero
  | notAnAddress
  | notEvaluable
  /-- The operator does not combine addresses. -/
  | operator (op : Operator) (left right : Address)
deriving DecidableEq, Repr

namespace ValueError

def message : ValueError → Text
  | .label fault => fault.message
  | .divideByZero => ascii "syntax error: division by zero"
  | .notAnAddress => ascii "syntax error: expression is not an address"
  | .notEvaluable => ascii "syntax error: expression cannot be evaluated"
  | .operator op left right =>
    ascii "cannot " ++ op.render ++ ascii " " ++ left.render ++ ascii " and " ++ right.render

/-- Whether only a label that may be defined later is missing. -/
def isUnresolved : ValueError → Bool
  | .label fault => fault.isUnresolved
  | _ => false

end ValueError

/-- Combines two addresses. Two zero page addresses give a zero page address,
which wraps at 8 bits; any others give a full address. -/
def Address.combine (op : Operator) (left right : Address) : Except ValueError Address :=
  match op.apply left.value right.value with
  | .ok value =>
    if left.isZeroPage && right.isZeroPage then .ok (.zeroPage value.toUInt8) else .ok (.full value)
  | .error .divideByZero => .error .divideByZero
  | .error .notArithmetic => .error (.operator op left right)

namespace Expr

def lookup (labels : Label.View) (name : Text) : Except ValueError Address :=
  (labels name).mapError .label

def address (labels : Label.View) : Expr → Except ValueError Address
  | .decimal n => .ok (if n ≤ 0xFF then .zeroPage n.toUInt8 else .full n)
  | .byte b => .ok (.zeroPage b)
  | .word w => .ok (.full w)
  | .ident name => lookup labels name
  | .paren e => e.address labels
  | .highByte e => return .zeroPage (← e.address labels).high
  | .lowByte e => return .zeroPage (← e.address labels).low
  | .binary left op right => do
    let l ← left.address labels
    let r ← right.address labels
    Address.combine op l r
  | .empty | .string _ | .bracket _ | .system _ => .error .notAnAddress

/-- The word that an expression denotes where the program counter is `pc`. A
comparison is 1 if it holds and 0 if not. -/
def value (labels : Label.View) (pc : UInt16) : Expr → Except ValueError UInt16
  | .decimal n => .ok n
  | .byte b => .ok b.toUInt16
  | .word w => .ok w
  | .ident name => return (← lookup labels name).value
  | .system run => if run = [Ascii.star] then .ok pc else .error .notEvaluable
  | .paren e => e.value labels pc
  | .highByte e => return (← e.value labels pc) >>> 8
  | .lowByte e => return (← e.value labels pc) &&& 0xFF
  | .binary left op right => do
    let l ← left.value labels pc
    let r ← right.value labels pc
    if op.isComparison then .ok (if op.holds l r then 1 else 0)
    else
      match op.apply l r with
      | .ok v => .ok v
      | .error .divideByZero => .error .divideByZero
      | .error .notArithmetic => .error .notEvaluable
  | .empty | .string _ | .bracket _ => .error .notEvaluable

end Expr

end Asm6502
