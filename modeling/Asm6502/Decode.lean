-- Statements as instructions. Every command has an ordered list of forms, and
-- the first form that fits the operand decides the instruction: `X=$12` loads
-- a value, `X=($12)` loads from memory.
import Asm6502.Decode.Operand
import Asm6502.Statement

namespace Asm6502

namespace Decode

/-! ## Branch conditions -/

def conditions : List (Text × Mnemonic) :=
  [(ascii "\\", .bne), (ascii "/", .bne), (ascii "!", .bne), (ascii "NE", .bne),
    (ascii "=", .beq), (ascii "EQ", .beq), (ascii "Z", .beq),
    (ascii ">", .bcs), (ascii "CS", .bcs), (ascii "GE", .bcs),
    (ascii "<", .bcc), (ascii "CC", .bcc), (ascii "LT", .bcc),
    (ascii "-", .bmi), (ascii "MI", .bmi),
    (ascii "+", .bpl), (ascii "PL", .bpl),
    (ascii "_", .bvc), (ascii "VC", .bvc),
    (ascii "^", .bvs), (ascii "VS", .bvs)]

/-- The branch of a condition, which is a name or a system operator. -/
def branch? : Expr → Option Mnemonic
  | .ident text | .system text => conditions.lookup text
  | _ => none

/-- The target of a branch, which always waits for its distance. -/
def branchTarget? : Expr → Option Operand
  | .decimal n => some (.target n)
  | .byte b => some (.target b.toUInt16)
  | .word w => some (.target w)
  | .ident name => if isRegister name then none else some (.label name)
  | e => if hasRegister e then none else some (.expr e)

/-! ## Forms -/

inductive Form where
  /-- The operand is exactly this one. -/
  | exactly (operand : Expr) (mnemonic : Mnemonic) (mode : Mode)
  /-- The operand fits one of the instruction's modes. -/
  | modes (mnemonic : Mnemonic)
  /-- The operand is `register op e`, and `e` fits one of the modes. -/
  | behind (register : Text) (op : Operator) (mnemonic : Mnemonic)
  /-- The command itself fits one of the modes, and the operand is exactly this. -/
  | stored (operand : Expr) (mnemonic : Mnemonic)
  /-- The operand is the address of a jump or call. -/
  | jump (mnemonic : Mnemonic)
  /-- The operand is a pointer `[vector]`. -/
  | vector (mnemonic : Mnemonic)
  /-- The operand is `condition,target`. -/
  | branch
deriving DecidableEq, Repr

def Form.decode? (labels : Label.View) (st : Statement) : Form → Option Instruction
  | .exactly operand mnemonic mode =>
    if st.operand = operand then some { mnemonic, mode, operand := .none } else none
  | .modes mnemonic => inModes? labels mnemonic st.operand
  | .behind register op mnemonic =>
    match st.operand with
    | .binary left op' right =>
      if op' = op ∧ left = .ident register then inModes? labels mnemonic right else none
    | _ => none
  | .stored operand mnemonic =>
    if st.operand = operand then inModes? labels mnemonic st.command else none
  | .jump mnemonic =>
    (target? labels st.operand).map fun operand => { mnemonic, mode := .absolute, operand }
  | .vector mnemonic =>
    ((bracketed? st.operand).bind (absolute? labels)).map fun operand =>
      { mnemonic, mode := .indirect, operand }
  | .branch =>
    match st.operand with
    | .binary condition .comma target => do
      let mnemonic ← branch? condition
      let operand ← branchTarget? target
      return { mnemonic, mode := .relative, operand }
    | _ => none

/-! ## Commands -/

def transfer (register : String) (mnemonic : Mnemonic) : Form :=
  .exactly (.ident (ascii register)) mnemonic .implied

def sign (run : String) (mnemonic : Mnemonic) (mode : Mode) : Form :=
  .exactly (.system (ascii run)) mnemonic mode

/-- The steps of an index register, `X=X+1` and `X=+`. -/
def steps (register : Text) (up down : Mnemonic) : List Form :=
  [sign "+" up .implied, sign "-" down .implied,
    .exactly (.binary (.ident register) .add (.decimal 1)) up .implied,
    .exactly (.binary (.ident register) .sub (.decimal 1)) down .implied]

/-- A flag is cleared by `=0` and set by `=1`. -/
def flag (clear set : Mnemonic) : List Form :=
  [.exactly (.decimal 0) clear .implied, .exactly (.decimal 1) set .implied]

def nameForms : List (Text × List Form) :=
  [(ascii "X", .modes .ldx :: steps regX .inx .dex ++ [transfer "A" .tax, transfer "S" .tsx]),
    (ascii "Y", .modes .ldy :: steps regY .iny .dey ++ [transfer "A" .tay]),
    (ascii "A",
      [.modes .lda, transfer "X" .txa, transfer "Y" .tya, .behind regAC .add .adc,
        .behind regAC .sub .sbc, .behind regA .or .ora, .behind regA .and .and,
        .behind regA .xor .eor, sign "]" .pla .implied, sign "<" .asl .accumulator,
        sign ">" .lsr .accumulator, sign "(" .rol .accumulator, sign ")" .ror .accumulator]),
    (ascii "T",
      [.behind regA .sub .cmp, .behind regX .sub .cpx, .behind regY .sub .cpy,
        .behind regA .and .bit]),
    (ascii "C", flag .clc .sec), (ascii "I", flag .cli .sei), (ascii "D", flag .cld .sed),
    (ascii "V", [.exactly (.decimal 0) .clv .implied]),
    (ascii "S", [transfer "X" .txs]), (ascii "P", [sign "]" .plp .implied])]

def signForms : List (Text × List Form) :=
  [(ascii "!", [.jump .jsr]),
    (ascii "#", [sign "!" .rts .implied, sign "~" .rti .implied, .vector .jmp, .jump .jmp]),
    (ascii ";", [.branch]),
    (ascii "[", [transfer "A" .pha, transfer "P" .php]),
    (ascii "<", [.modes .asl]), (ascii ">", [.modes .lsr]),
    (ascii "(", [.modes .rol]), (ascii ")", [.modes .ror])]

/-- The forms of commands that name memory: a register is stored there, or the
memory is stepped, shifted or rotated. -/
def memoryForms : List Form :=
  [.stored (.ident regA) .sta, .stored (.ident regX) .stx, .stored (.ident regY) .sty,
    .stored (.system (ascii "+")) .inc, .stored (.system (ascii "-")) .dec,
    .stored (.system (ascii "<")) .asl, .stored (.system (ascii ">")) .lsr,
    .stored (.system (ascii "(")) .rol, .stored (.system (ascii ")")) .ror]

/-- The forms of a command, in the order they are tried. -/
def forms : Expr → List Form
  | .ident name => (nameForms.lookup name).getD []
  | .system run => (signForms.lookup run).getD []
  | .paren _ | .bracket _ | .binary .. => memoryForms
  | _ => []

end Decode

structure DecodeError where
  statement : Text
deriving DecidableEq, Repr

def DecodeError.message (e : DecodeError) : Text := ascii "bad expression: " ++ e.statement

namespace Statement

/-- The instruction of a statement, by the first form that fits. -/
def decode? (labels : Label.View) (st : Statement) : Option Instruction :=
  (Decode.forms st.command).findSome? (Decode.Form.decode? labels st)

def decode (labels : Label.View) (st : Statement) : Except DecodeError Instruction :=
  match st.decode? labels with
  | some i => .ok i
  | none => .error ⟨st.render⟩

end Statement

end Asm6502
