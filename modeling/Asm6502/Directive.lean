-- Directives: statements that steer the assembly instead of being
-- instructions. `*` sets the program counter, `:` moves the label of its line,
-- `?` emits data and `$` emits a repeated value.
import Asm6502.Error

namespace Asm6502

inductive Directive where
  | origin
  | move
  | data
  | fill
deriving DecidableEq, Repr

namespace Directive

def of? (command : Expr) : Option Directive :=
  if command = .system (ascii "*") then some .origin
  else if command = .system (ascii ":") then some .move
  else if command = .system (ascii "?") then some .data
  else if command = .system (ascii "$") then some .fill
  else none

/-! ## Data -/

def dataWidth : Expr → Except Error Nat
  | .decimal n => if n ≤ 0xFF then .ok 1 else .error (.byteRange (Expr.decimal n).render n)
  | .byte _ | .highByte _ | .lowByte _ => .ok 1
  | .word _ | .ident _ | .binary .. => .ok 2
  | .string s => .ok s.length
  | .empty | .paren _ | .bracket _ | .system _ => .error .badData

def dataLength (operand : Expr) : Except Error Nat :=
  return (← operand.elements.mapM dataWidth).foldr (· + ·) 0

/-- A value as one byte, or as a word. -/
def valueCodes (item : Expr) (width : Nat) (value : UInt16) : Except Error Text :=
  if width = 1 then
    if value ≤ 0xFF then .ok [value.toUInt8] else .error (.byteRange item.render value)
  else .ok (littleEndian value)

def itemCodes (labels : Label.View) (pc : UInt16) (item : Expr) : Except Error Text :=
  match item with
  | .string s => .ok s
  | _ => do
    let width ← dataWidth item
    let value ← (item.value labels pc).mapError .value
    valueCodes item width value

def dataCodes (labels : Label.View) (pc : UInt16) (operand : Expr) : Except Error Text :=
  return (← operand.elements.mapM (itemCodes labels pc)).flatten

/-! ## Fill -/

/-- A value to repeat, its width, and how often. -/
structure Fill where
  value : Expr
  width : Nat
  count : Nat
deriving DecidableEq, Repr

def fillWidth : Expr → Except Error Nat
  | .byte _ | .highByte _ | .lowByte _ => .ok 1
  | .decimal n => .ok (if n ≤ 0xFF then 1 else 2)
  | .word _ | .ident _ | .binary .. => .ok 2
  | .empty | .string _ | .paren _ | .bracket _ | .system _ => .error .badFill

/-- Reads the operand `value,count`. -/
def fillOf (labels : Label.View) (pc : UInt16) : Expr → Except Error Fill
  | .binary value .comma count => do
    let width ← fillWidth value
    let count ← (count.value labels pc).mapError .value
    return { value, width, count := count.toNat }
  | _ => .error .badFill

/-- The bytes of a fill; the value must fit only if it is written at all. -/
def fillCodes (labels : Label.View) (pc : UInt16) (operand : Expr) : Except Error Text := do
  let fill ← fillOf labels pc operand
  let value ← (fill.value.value labels pc).mapError .value
  if fill.count = 0 then return []
  let codes ← valueCodes fill.value fill.width value
  return (List.replicate fill.count codes).flatten

end Directive

end Asm6502
