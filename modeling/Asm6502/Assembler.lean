-- The assembler: control constructs are expanded, the lines are laid out, and
-- then encoded.
import Asm6502.Control
import Asm6502.Program

namespace Asm6502

/-- What is known after the last assembly: its origin and its labels, if there
was one. -/
structure Assembler where
  origin : UInt16 := 0
  labels : Option Label.Table := none
deriving DecidableEq, Repr

structure Assembly where
  assembler : Assembler
  messages : List Text
  program : Except Error Program

namespace Assembler

def assembleExpanded (lines : List Line) : Assembly :=
  let (layout, sized) := Layout.lines {} lines
  let origin := layout.origin
  match sized with
  | .error e =>
    { assembler := { origin, labels := some layout.labels }, messages := [], program := .error e }
  | .ok sized =>
    let result := Emit.lines layout.labels.leave sized
    { assembler := { origin, labels := some result.labels }
      messages := result.messages
      program := result.lines.map fun lines => { origin, lines, labels := result.labels } }

/-- Assembles lines. If a control construct is wrong, what is known stays as it
was. -/
def assemble (assembler : Assembler) (lines : List Line) : Assembly :=
  let expansion := Control.expand {} lines
  match expansion.lines with
  | .error e => { assembler, messages := [], program := .error e }
  | .ok expanded =>
    let assembly := assembleExpanded expanded
    { assembly with messages := expansion.messages ++ assembly.messages }

end Assembler

end Asm6502
