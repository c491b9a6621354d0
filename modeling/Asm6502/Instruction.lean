-- Instructions: a mnemonic in an addressing mode with an operand, which may
-- wait for labels that are defined later.
import Asm6502.Expr
import Asm6502.Opcode

namespace Asm6502

inductive Operand where
  | none
  | byte (value : UInt8)
  | word (value : UInt16)
  /-- A label that has no address yet. -/
  | label (name : Text)
  /-- The target of a branch, to become a distance. -/
  | target (address : UInt16)
  /-- An expression with a label that has no address yet. -/
  | expr (e : Expr)
deriving DecidableEq, Repr

structure Instruction where
  mnemonic : Mnemonic
  mode : Mode
  operand : Operand
deriving DecidableEq, Repr

namespace Operand

/-- The text of an operand, with a blank before it if there is one. -/
def render : Operand → Text
  | .none => []
  | .byte b => ascii " $" ++ hexByte b
  | .word w => ascii " $" ++ hexWord w
  | .label name => ascii " " ++ name
  | .target w => ascii " $" ++ hexWord w
  | .expr e => ascii " " ++ e.render

def isDeferred : Operand → Bool
  | .label _ | .expr _ => true
  | _ => false

end Operand

namespace Instruction

def length (i : Instruction) : Nat := i.mode.length

def render (i : Instruction) : Text :=
  i.mnemonic.name ++ ascii " " ++ i.mode.name ++ i.operand.render

end Instruction

end Asm6502
