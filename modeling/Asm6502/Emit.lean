-- Object code: every statement is encoded at its place, now that all labels
-- have their addresses. The bytes must fill the space reserved for them.
import Asm6502.Layout

namespace Asm6502

structure PlacedLine where
  line : Line
  address : UInt16
  codes : Text
deriving DecidableEq, Repr

namespace Emit

/-! ## Instructions -/

/-- The instruction in the absolute form of its zero page mode. -/
def widen (i : Instruction) : Except Error Instruction :=
  match i.mode.widen? with
  | some wide =>
    if Opcode.has i.mnemonic wide then
      let operand := match i.operand with
        | .byte b => .word b.toUInt16
        | operand => operand
      .ok { i with mode := wide, operand }
    else .error .sizeChanged
  | none => .error .sizeChanged

def operandValue (labels : Label.View) (pc : UInt16) : Operand → Except Error UInt16
  | .byte b => .ok b.toUInt16
  | .word w => .ok w
  | .target w => .ok w
  | .label name => ((labels name).map Address.value).mapError .label
  | .expr e => (e.value labels pc).mapError .value
  | .none => .error .badData

/-- The byte that takes a branch at `pc` to its target. -/
def distance (pc target : UInt16) : Except Error UInt8 :=
  let d : Int := target.toNat - (pc.toNat + 2)
  if d < -128 ∨ 127 < d then .error (.branchRange pc target)
  else .ok (UInt8.ofNat (d % 256).toNat)

def operandCodes (st : Statement) (mode : Mode) (pc value : UInt16) : Except Error Text :=
  if mode = .relative then return [← distance pc value]
  else if mode.length = 2 then
    if value ≤ 0xFF then .ok [value.toUInt8] else .error (.byteRange st.operand.render value)
  else .ok (littleEndian value)

/-- The bytes of an instruction statement. A shorter form than the one reserved
is widened. -/
def instructionCodes (labels : Label.View) (st : Statement) (size : Sizing) :
    Except Error Text := do
  let decoded ← (st.decode labels).mapError .decode
  let i ← if decoded.length < size.length then widen decoded else .ok decoded
  let code ← (Opcode.lookup i.mnemonic i.mode).mapError .opcode
  if i.length = 1 then return [code]
  let value ← operandValue labels size.pc i.operand
  return code :: (← operandCodes st i.mode size.pc value)

/-! ## Lines -/

def statementCodes (labels : Label.View) (st : Statement) (size : Sizing) : Except Error Text :=
  match Directive.of? st.command with
  | some .origin | some .move => .ok []
  | some .data => Directive.dataCodes labels size.pc st.operand
  | some .fill => Directive.fillCodes labels size.pc st.operand
  | none => instructionCodes labels st size

/-- The bytes of a statement, which must be as many as were reserved. -/
def statement (labels : Label.View) (st : Statement) (size : Sizing) : Except Error Text := do
  let codes ← statementCodes labels st size
  if codes.length = size.length then return codes else .error .sizeChanged

def statements (labels : Label.View) : List (Statement × Sizing) → Except Error Text
  | [] => .ok []
  | (st, size) :: rest => do
    let codes ← statement labels st size
    let others ← statements labels rest
    return codes ++ others

/-- The object code of a line, in the scope that the line is in. -/
def line (labels : Label.View) (sized : SizedLine) : Except Error PlacedLine :=
  match statements labels (sized.line.statements.zip sized.sizes) with
  | .ok codes => .ok { line := sized.line, address := sized.address, codes }
  | .error e => .error (.located sized.line.file sized.line.number sized.line.text e)

def lineMessage (placed : PlacedLine) : Text :=
  hexWord placed.address ++ ascii " " ++ padRight 24 (hexDump placed.codes) ++ ascii " " ++
    placed.line.text

/-- The object code of lines up to the first error, and the labels in the scope
that was reached. -/
structure Result where
  labels : Label.Table
  messages : List Text
  lines : Except Error (List PlacedLine)

/-- The object code of lines. A line with a global label enters its scope. -/
def lines (labels : Label.Table) : List SizedLine → Result
  | [] => { labels, messages := [], lines := .ok [] }
  | sized :: rest =>
    let entered := labels.enter sized.line.label
    match line entered.lookup sized with
    | .error e => { labels := entered, messages := [], lines := .error e }
    | .ok placed =>
      let others := lines entered rest
      { others with
        messages := lineMessage placed :: others.messages
        lines := others.lines.map (placed :: ·) }

end Emit

end Asm6502
