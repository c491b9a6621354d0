-- The layout of a program: every label gets its address, and every statement
-- its place and size. Statements are placed one behind the other, from the
-- origin that a `*` sets.
import Asm6502.Directive
import Asm6502.Line

namespace Asm6502

structure Sizing where
  pc : UInt16
  length : Nat
deriving DecidableEq, Repr

structure SizedLine where
  line : Line
  address : UInt16
  sizes : List Sizing
deriving DecidableEq, Repr

/-- How far the layout has come: the labels so far, the program counter, which
may stand just behind the end of memory, whether it was set, and the first value
that it was set to. -/
structure Layout where
  labels : Label.Table := {}
  pc : Nat := 0
  addressSet : Bool := false
  origin : UInt16 := 0
  originSet : Bool := false
deriving DecidableEq, Repr

namespace Layout

def memorySize : Nat := 0x10000

def address (layout : Layout) : UInt16 := UInt16.ofNat layout.pc

/-- Sets the program counter; the first time, this is the origin. -/
def setOrigin (layout : Layout) (pc : UInt16) : Layout :=
  { layout with
    pc := pc.toNat
    addressSet := true
    origin := if layout.originSet then layout.origin else pc
    originSet := true }

/-- A size, once the program counter is set. -/
def placed (layout : Layout) (length : Except Error Nat) : Except Error (Layout × Nat) :=
  if layout.addressSet then return (layout, ← length) else .error .addressNotSet

/-- Runs a statement of a line whose label has the full name `label`, or no
label if that is empty. Gives the bytes that it takes. -/
def reserve (layout : Layout) (label : Text) (st : Statement) : Except Error (Layout × Nat) :=
  match Directive.of? st.command with
  | some .origin => do
    let pc ← (st.operand.value layout.labels.lookup layout.address).mapError .value
    return (layout.setOrigin pc, 0)
  | some .move =>
    if label.isEmpty then .error .labelNeeded
    else do
      let address ← (st.operand.address layout.labels.lookup).mapError .value
      match layout.labels.fix label address with
      | { result := .error fault, .. } => .error (.label fault)
      | { table := labels, result := .ok () } => return ({ layout with labels }, 0)
  | some .data => layout.placed (Directive.dataLength st.operand)
  | some .fill =>
    layout.placed
      ((Directive.fillOf layout.labels.lookup layout.address st.operand).map fun fill =>
        fill.width * fill.count)
  | none =>
    layout.placed (((st.decode layout.labels.lookup).map Instruction.length).mapError .decode)

def statement (layout : Layout) (label : Text) (st : Statement) :
    Except Error (Layout × Sizing) := do
  let (next, length) ← layout.reserve label st
  if memorySize < next.pc + length then .error .addressOverflow
  else return ({ next with pc := next.pc + length }, { pc := layout.address, length })

def statements (layout : Layout) (label : Text) :
    List Statement → Layout × Except Error (List Sizing)
  | [] => (layout, .ok [])
  | st :: rest =>
    match layout.statement label st with
    | .error e => (layout, .error e)
    | .ok (next, size) =>
      let (last, sizes) := next.statements label rest
      (last, sizes.map (size :: ·))

/-- Defines the label of a line, if it has one. Gives its full name. -/
def defineLabel (layout : Layout) (line : Line) : Except Error (Layout × Text) :=
  if line.label.isEmpty then .ok (layout, [])
  else
    match layout.labels.define line.label line.number layout.address with
    | { result := .error fault, .. } => .error (.label fault)
    | { table := labels, result := .ok label } => .ok ({ layout with labels }, label)

def line (layout : Layout) (line : Line) : Layout × Except Error SizedLine :=
  let located (e : Error) : Error := .located line.file line.number line.text e
  match layout.defineLabel line with
  | .error e => (layout, .error (located e))
  | .ok (next, label) =>
    let (last, sizes) := next.statements label line.statements
    (last, (sizes.mapError located).map fun sizes => { line, address := layout.address, sizes })

/-- Places lines, up to the first error. -/
def lines (layout : Layout) : List Line → Layout × Except Error (List SizedLine)
  | [] => (layout, .ok [])
  | line :: rest =>
    match layout.line line with
    | (next, .error e) => (next, .error e)
    | (next, .ok sized) =>
      let (last, others) := next.lines rest
      (last, others.map (sized :: ·))

end Layout

end Asm6502
