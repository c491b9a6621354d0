-- The listing of a program: a row for each line that has object code.
import Asm6502.Program

namespace Asm6502

namespace Program

def codesWidth : Nat := 9

def listingRow (address : UInt16) (placed : PlacedLine) : Text :=
  Ascii.dollar :: hexWord address ++ ascii "  " ++ padRight codesWidth (hexDump placed.codes) ++
    ascii " " ++ placed.line.file ++ ascii ":" ++ integer placed.line.number ++ ascii " " ++
    placed.line.text ++ [Ascii.newline]

/-- An address with the line whose object code starts there. -/
def lineAt? (program : Program) (address : UInt16) : Option (UInt16 × PlacedLine) :=
  match program.locate? address with
  | some (placed, 0) => some (address, placed)
  | _ => none

/-- The addresses at which the object code of a line starts, with the line, in
the order of the program. -/
def listed (program : Program) : List (UInt16 × PlacedLine) :=
  program.addressed.filterMap fun byte => program.lineAt? byte.1

def listing (program : Program) : Text :=
  program.listed.flatMap fun (address, placed) => listingRow address placed

end Program

end Asm6502
