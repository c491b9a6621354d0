-- The binary operators of operand expressions and what they do to words.
import Asm6502.Text

namespace Asm6502

inductive Operator where
  | add
  | sub
  | mul
  | div
  | and
  | or
  | xor
  | comma
  | greater
  | less
  | equal
  | notEqual
  /-- A code outside the operator table: it prints its number and has no meaning. -/
  | unlisted (code : Int)
deriving DecidableEq, Repr

namespace Operator

/-- The operator table, in the order of the operator codes. -/
def listed : List Operator :=
  [.add, .sub, .mul, .div, .and, .or, .xor, .comma, .greater, .less, .equal, .notEqual]

def ofCode (code : Int) : Operator :=
  if 0 ≤ code then (listed[code.toNat]?).getD (.unlisted code) else .unlisted code

def render : Operator → Text
  | .add => ascii "+"
  | .sub => ascii "-"
  | .mul => ascii "*"
  | .div => ascii "/"
  | .and => ascii "&"
  | .or => ascii "|"
  | .xor => ascii "^"
  | .comma => ascii ","
  | .greater => ascii ">"
  | .less => ascii "<"
  | .equal => ascii "="
  | .notEqual => ascii "\\"
  | .unlisted code => ascii "Operator(" ++ integer code ++ ascii ")"

/-- The operators that conditions are made of. -/
def isComparison : Operator → Bool
  | .greater | .less | .equal | .notEqual => true
  | _ => false

inductive Failure where
  | divideByZero
  | notArithmetic
deriving DecidableEq, Repr

/-- Word arithmetic; results wrap at 16 bits. -/
def apply (op : Operator) (a b : UInt16) : Except Failure UInt16 :=
  match op with
  | .add => .ok (a + b)
  | .sub => .ok (a - b)
  | .mul => .ok (a * b)
  | .div => if b = 0 then .error .divideByZero else .ok (a / b)
  | .and => .ok (a &&& b)
  | .or => .ok (a ||| b)
  | .xor => .ok (a ^^^ b)
  | _ => .error .notArithmetic

/-- Whether an unsigned comparison holds; no other operator ever does. -/
def holds (op : Operator) (a b : UInt16) : Bool :=
  match op with
  | .greater => decide (b < a)
  | .less => decide (a < b)
  | .equal => decide (a = b)
  | .notEqual => decide (a ≠ b)
  | _ => false

end Operator

end Asm6502
