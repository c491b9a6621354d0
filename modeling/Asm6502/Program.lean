-- Assembled programs: their bytes, the addresses of the bytes, and the line
-- that an address belongs to.
import Asm6502.Emit

namespace Asm6502

/-- An assembled program: its lines in source order, with their object code. -/
structure Program where
  origin : UInt16
  lines : List PlacedLine
  labels : Label.Table
deriving DecidableEq, Repr

namespace Program

def size (program : Program) : Nat :=
  program.lines.foldr (fun placed n => placed.codes.length + n) 0

def bytes (program : Program) : Text := program.lines.flatMap PlacedLine.codes

end Program

def indexed {α : Type} (items : List α) : List (Nat × α) := items.zipIdx.map fun (a, n) => (n, a)

/-- The addresses and values of the bytes of a line. -/
def PlacedLine.addressed (placed : PlacedLine) : List (UInt16 × UInt8) :=
  (indexed placed.codes).map fun (n, code) => (placed.address + UInt16.ofNat n, code)

def PlacedLine.covers (placed : PlacedLine) (address : UInt16) : Bool :=
  decide (placed.address ≤ address) &&
    decide (address.toNat < placed.address.toNat + placed.codes.length)

namespace Program

def addressed (program : Program) : List (UInt16 × UInt8) :=
  program.lines.flatMap PlacedLine.addressed

/-- The first line whose bytes hold an address, and how far into them it lies. -/
def locate? (program : Program) (address : UInt16) : Option (PlacedLine × Nat) :=
  (program.lines.find? (·.covers address)).map fun placed =>
    (placed, (address - placed.address).toNat)

end Program

end Asm6502
