-- Object files: a program as plain bytes, behind a load address, or as
-- Intel HEX.
import Asm6502.Image.IntelHex
import Asm6502.Program

namespace Asm6502

inductive Format where
  | binary
  /-- Behind the load address of a C64 program. -/
  | c64
  | intelHex
deriving DecidableEq, Repr

/-- The most bytes in a data record of an Intel HEX file. -/
def hexRecordSize : UInt8 := 40

namespace Program

/-- The load address of a C64 program, `$0801`. -/
def c64Header : Text := [0x01, 0x08]

/-- A memory that holds the bytes one behind the other from the origin. -/
def hexMemory (library : IntelHex.Library) (program : Program) : Except Text library.Memory :=
  if program.bytes.isEmpty then .ok library.empty
  else library.addBinary library.empty program.origin.toUInt32 program.bytes

/-- What is written for an object file, piece by piece, or why it cannot be made. -/
def pieces (library : IntelHex.Library) (program : Program) : Format → Except Text (List Text)
  | .binary => .ok [program.bytes]
  | .c64 => .ok [c64Header ++ program.bytes]
  | .intelHex => (program.hexMemory library).map fun memory => library.dump memory hexRecordSize

def image (library : IntelHex.Library) (program : Program) (format : Format) : Except Text Text :=
  (program.pieces library format).map List.flatten

end Program

end Asm6502
