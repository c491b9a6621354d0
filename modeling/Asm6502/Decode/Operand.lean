-- How the operand of a statement becomes the operand of an instruction in
-- each addressing mode. A label without an address does not refuse an
-- operand: the operand then waits for it.
import Asm6502.Expr.Value
import Asm6502.Instruction

namespace Asm6502

namespace Decode

/-! ## Registers -/

def regA : Text := ascii "A"
def regX : Text := ascii "X"
def regY : Text := ascii "Y"
def regAC : Text := ascii "AC"

def isRegister (name : Text) : Bool :=
  name == regA || name == regX || name == regY || name == regAC

def hasRegister : Expr → Bool
  | .ident name => isRegister name
  | .paren e | .bracket e | .highByte e | .lowByte e => hasRegister e
  | .binary left _ right => hasRegister left || hasRegister right
  | _ => false

/-- Splits `base+register` into its base. Arithmetic groups to the right, so
`label+1+X` is `label+(1+X)`, and its base is `label+1`. -/
def indexed? (register : Text) : Expr → Option Expr
  | .binary left op right =>
    if op = .add ∧ right = .ident register then some left
    else (indexed? register right).map (.binary left op ·)
  | _ => none

def parenthesized? : Expr → Option Expr
  | .paren e => some e
  | _ => none

def bracketed? : Expr → Option Expr
  | .bracket e => some e
  | _ => none

/-! ## Addresses -/

/-- The address of an operand, or the operand that waits for it. -/
inductive Resolved where
  | known (address : Address)
  | deferred (operand : Operand)
deriving DecidableEq, Repr

/-- The operand that waits for the labels of an expression. -/
def waiting : Expr → Operand
  | .ident name => .label name
  | e => .expr e

def address? (labels : Label.View) (e : Expr) : Option Resolved :=
  if hasRegister e then none
  else
    match e.address labels with
    | .ok a => some (.known a)
    | .error error => if error.isUnresolved then some (.deferred (waiting e)) else none

/-- A byte: a zero page value, or the high or low byte of a label, which alone
may wait. -/
def immediate? (labels : Label.View) (e : Expr) : Option Operand :=
  match e with
  | .paren _ | .bracket _ => none
  | .highByte _ | .lowByte _ =>
    match address? labels e with
    | some (.known a) => some (.byte a.low)
    | some (.deferred operand) => some operand
    | none => none
  | _ =>
    match address? labels e with
    | some (.known a) => if a.isZeroPage then some (.byte a.low) else none
    | _ => none

/-- A zero page address. It may wait only where the caller says so. -/
def zeroPage? (labels : Label.View) (mayWait : Bool) (e : Expr) : Option Operand :=
  match address? labels e with
  | some (.known a) => if a.isZeroPage then some (.byte a.low) else none
  | some (.deferred operand) => if mayWait then some operand else none
  | none => none

def absolute? (labels : Label.View) (e : Expr) : Option Operand :=
  match address? labels e with
  | some (.known a) => some (.word a.value)
  | some (.deferred operand) => some operand
  | none => none

def target? (labels : Label.View) (e : Expr) : Option Operand :=
  match e with
  | .bracket _ | .system _ => none
  | _ => absolute? labels e

/-! ## Addressing modes -/

/-- Whether a zero page operand may wait: only if the instruction has no
absolute form that could take any address. -/
def mayWait (mnemonic : Mnemonic) (mode : Mode) : Bool :=
  match mode.widen? with
  | some wide => !Opcode.has mnemonic wide
  | none => true

/-- The operand of an instruction in a mode, if the expression has its shape. -/
def operand? (labels : Label.View) (mnemonic : Mnemonic) (mode : Mode) (e : Expr) :
    Option Operand :=
  match mode with
  | .accumulator => if e = .ident regA then some .none else none
  | .immediate => immediate? labels e
  | .zeroPage => do zeroPage? labels (mayWait mnemonic mode) (← parenthesized? e)
  | .zeroPageX => do
    zeroPage? labels (mayWait mnemonic mode) (← indexed? regX (← parenthesized? e))
  | .zeroPageY => do
    zeroPage? labels (mayWait mnemonic mode) (← indexed? regY (← parenthesized? e))
  | .absolute => do absolute? labels (← parenthesized? e)
  | .absoluteX => do absolute? labels (← indexed? regX (← parenthesized? e))
  | .absoluteY => do absolute? labels (← indexed? regY (← parenthesized? e))
  | .indirectX => do zeroPage? labels true (← indexed? regX (← bracketed? e))
  | .indirectY => do zeroPage? labels true (← bracketed? (← indexed? regY e))
  | .implied | .indirect | .relative => none

/-- The order in which modes are tried: a value is never taken for memory, and
the zero page is preferred. -/
def modeOrder : List Mode :=
  [.accumulator, .immediate, .zeroPage, .zeroPageX, .zeroPageY, .absolute, .absoluteX, .absoluteY,
    .indirectX, .indirectY]

/-- An instruction in the first of its modes that the expression fits. -/
def inModes? (labels : Label.View) (mnemonic : Mnemonic) (e : Expr) : Option Instruction :=
  (modeOrder.filter (Opcode.has mnemonic)).findSome? fun mode =>
    (operand? labels mnemonic mode e).map fun operand => { mnemonic, mode, operand }

end Decode

end Asm6502
