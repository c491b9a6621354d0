-- What runs inline programs. It is no part of the assembler, whose rules hold for
-- every interpreter: one is given integers under names, and gives the integers
-- among the names that a program assigned.
import Asm6502.Text

namespace Asm6502

namespace Inline

inductive Phase where
  | syntactic
  | names
  | running
deriving DecidableEq, Repr

/-- What an interpreter says of a program that fails. -/
structure Complaint where
  phase : Phase
  text : Text
deriving DecidableEq, Repr

/-- Runs programs with given integers. A name has none if it is not assigned, or if
its value is no integer. -/
structure Interpreter where
  run : (given : Text → Option Int) → (program : Text) → Except Complaint (Text → Option Int)

end Inline

end Asm6502
