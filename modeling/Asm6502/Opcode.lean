-- The instruction set of the NMOS 6502: mnemonics, addressing modes and the
-- opcode of every legal pair.
import Asm6502.Text

namespace Asm6502

/-! ## Mnemonics -/

inductive Mnemonic where
  | adc | and | asl | bcc | bcs | beq | bit | bmi
  | bne | bpl | brk | bvc | bvs | clc | cld | cli
  | clv | cmp | cpx | cpy | dec | dex | dey | eor
  | inc | inx | iny | jmp | jsr | lda | ldx | ldy
  | lsr | nop | ora | pha | php | pla | plp | rol
  | ror | rti | rts | sbc | sec | sed | sei | sta
  | stx | sty | tax | tay | tsx | txa | txs | tya
deriving DecidableEq, Repr

namespace Mnemonic

/-- The instructions in the order of their numbers. -/
def all : List Mnemonic :=
  [.adc, .and, .asl, .bcc, .bcs, .beq, .bit, .bmi,
    .bne, .bpl, .brk, .bvc, .bvs, .clc, .cld, .cli,
    .clv, .cmp, .cpx, .cpy, .dec, .dex, .dey, .eor,
    .inc, .inx, .iny, .jmp, .jsr, .lda, .ldx, .ldy,
    .lsr, .nop, .ora, .pha, .php, .pla, .plp, .rol,
    .ror, .rti, .rts, .sbc, .sec, .sed, .sei, .sta,
    .stx, .sty, .tax, .tay, .tsx, .txa, .txs, .tya]

def name : Mnemonic → Text
  | .adc => ascii "ADC"
  | .and => ascii "AND"
  | .asl => ascii "ASL"
  | .bcc => ascii "BCC"
  | .bcs => ascii "BCS"
  | .beq => ascii "BEQ"
  | .bit => ascii "BIT"
  | .bmi => ascii "BMI"
  | .bne => ascii "BNE"
  | .bpl => ascii "BPL"
  | .brk => ascii "BRK"
  | .bvc => ascii "BVC"
  | .bvs => ascii "BVS"
  | .clc => ascii "CLC"
  | .cld => ascii "CLD"
  | .cli => ascii "CLI"
  | .clv => ascii "CLV"
  | .cmp => ascii "CMP"
  | .cpx => ascii "CPX"
  | .cpy => ascii "CPY"
  | .dec => ascii "DEC"
  | .dex => ascii "DEX"
  | .dey => ascii "DEY"
  | .eor => ascii "EOR"
  | .inc => ascii "INC"
  | .inx => ascii "INX"
  | .iny => ascii "INY"
  | .jmp => ascii "JMP"
  | .jsr => ascii "JSR"
  | .lda => ascii "LDA"
  | .ldx => ascii "LDX"
  | .ldy => ascii "LDY"
  | .lsr => ascii "LSR"
  | .nop => ascii "NOP"
  | .ora => ascii "ORA"
  | .pha => ascii "PHA"
  | .php => ascii "PHP"
  | .pla => ascii "PLA"
  | .plp => ascii "PLP"
  | .rol => ascii "ROL"
  | .ror => ascii "ROR"
  | .rti => ascii "RTI"
  | .rts => ascii "RTS"
  | .sbc => ascii "SBC"
  | .sec => ascii "SEC"
  | .sed => ascii "SED"
  | .sei => ascii "SEI"
  | .sta => ascii "STA"
  | .stx => ascii "STX"
  | .sty => ascii "STY"
  | .tax => ascii "TAX"
  | .tay => ascii "TAY"
  | .tsx => ascii "TSX"
  | .txa => ascii "TXA"
  | .txs => ascii "TXS"
  | .tya => ascii "TYA"

end Mnemonic

/-! ## Addressing modes -/

inductive Mode where
  | implied | accumulator | immediate
  | zeroPage | zeroPageX | zeroPageY
  | absolute | absoluteX | absoluteY
  | indirect | indirectX | indirectY
  | relative
deriving DecidableEq, Repr

namespace Mode

def all : List Mode :=
  [.implied, .accumulator, .immediate, .zeroPage, .zeroPageX, .zeroPageY, .absolute, .absoluteX,
    .absoluteY, .indirect, .indirectX, .indirectY, .relative]

def name : Mode → Text
  | .implied => ascii "Implied"
  | .accumulator => ascii "Accumulator"
  | .immediate => ascii "Immediate"
  | .zeroPage => ascii "ZeroPage"
  | .zeroPageX => ascii "ZeroPageX"
  | .zeroPageY => ascii "ZeroPageY"
  | .absolute => ascii "Absolute"
  | .absoluteX => ascii "AbsoluteX"
  | .absoluteY => ascii "AbsoluteY"
  | .indirect => ascii "Indirect"
  | .indirectX => ascii "IndirectX"
  | .indirectY => ascii "IndirectY"
  | .relative => ascii "Relative"

/-- The bytes of an instruction in this mode, the opcode included. -/
def length : Mode → Nat
  | .implied | .accumulator => 1
  | .absolute | .absoluteX | .absoluteY | .indirect => 3
  | _ => 2

/-- The absolute form of a zero page mode. -/
def widen? : Mode → Option Mode
  | .zeroPage => some .absolute
  | .zeroPageX => some .absoluteX
  | .zeroPageY => some .absoluteY
  | _ => none

end Mode

/-! ## Opcodes -/

namespace Opcode

/-- The legal modes of an instruction with their opcodes. -/
def modes : Mnemonic → List (Mode × UInt8)
  | .adc => [(.immediate, 0x69), (.zeroPage, 0x65), (.zeroPageX, 0x75), (.absolute, 0x6D),
      (.absoluteX, 0x7D), (.absoluteY, 0x79), (.indirectX, 0x61), (.indirectY, 0x71)]
  | .and => [(.immediate, 0x29), (.zeroPage, 0x25), (.zeroPageX, 0x35), (.absolute, 0x2D),
      (.absoluteX, 0x3D), (.absoluteY, 0x39), (.indirectX, 0x21), (.indirectY, 0x31)]
  | .asl => [(.accumulator, 0x0A), (.zeroPage, 0x06), (.zeroPageX, 0x16),
      (.absolute, 0x0E), (.absoluteX, 0x1E)]
  | .bcc => [(.relative, 0x90)]
  | .bcs => [(.relative, 0xB0)]
  | .beq => [(.relative, 0xF0)]
  | .bit => [(.zeroPage, 0x24), (.absolute, 0x2C)]
  | .bmi => [(.relative, 0x30)]
  | .bne => [(.relative, 0xD0)]
  | .bpl => [(.relative, 0x10)]
  | .brk => [(.implied, 0x00)]
  | .bvc => [(.relative, 0x50)]
  | .bvs => [(.relative, 0x70)]
  | .clc => [(.implied, 0x18)]
  | .cld => [(.implied, 0xD8)]
  | .cli => [(.implied, 0x58)]
  | .clv => [(.implied, 0xB8)]
  | .cmp => [(.immediate, 0xC9), (.zeroPage, 0xC5), (.zeroPageX, 0xD5), (.absolute, 0xCD),
      (.absoluteX, 0xDD), (.absoluteY, 0xD9), (.indirectX, 0xC1), (.indirectY, 0xD1)]
  | .cpx => [(.immediate, 0xE0), (.zeroPage, 0xE4), (.absolute, 0xEC)]
  | .cpy => [(.immediate, 0xC0), (.zeroPage, 0xC4), (.absolute, 0xCC)]
  | .dec => [(.zeroPage, 0xC6), (.zeroPageX, 0xD6), (.absolute, 0xCE), (.absoluteX, 0xDE)]
  | .dex => [(.implied, 0xCA)]
  | .dey => [(.implied, 0x88)]
  | .eor => [(.immediate, 0x49), (.zeroPage, 0x45), (.zeroPageX, 0x55), (.absolute, 0x4D),
      (.absoluteX, 0x5D), (.absoluteY, 0x59), (.indirectX, 0x41), (.indirectY, 0x51)]
  | .inc => [(.zeroPage, 0xE6), (.zeroPageX, 0xF6), (.absolute, 0xEE), (.absoluteX, 0xFE)]
  | .inx => [(.implied, 0xE8)]
  | .iny => [(.implied, 0xC8)]
  | .jmp => [(.absolute, 0x4C), (.indirect, 0x6C)]
  | .jsr => [(.absolute, 0x20)]
  | .lda => [(.immediate, 0xA9), (.zeroPage, 0xA5), (.zeroPageX, 0xB5), (.absolute, 0xAD),
      (.absoluteX, 0xBD), (.absoluteY, 0xB9), (.indirectX, 0xA1), (.indirectY, 0xB1)]
  | .ldx => [(.immediate, 0xA2), (.zeroPage, 0xA6), (.zeroPageY, 0xB6),
      (.absolute, 0xAE), (.absoluteY, 0xBE)]
  | .ldy => [(.immediate, 0xA0), (.zeroPage, 0xA4), (.zeroPageX, 0xB4),
      (.absolute, 0xAC), (.absoluteX, 0xBC)]
  | .lsr => [(.accumulator, 0x4A), (.zeroPage, 0x46), (.zeroPageX, 0x56),
      (.absolute, 0x4E), (.absoluteX, 0x5E)]
  | .nop => [(.implied, 0xEA)]
  | .ora => [(.immediate, 0x09), (.zeroPage, 0x05), (.zeroPageX, 0x15), (.absolute, 0x0D),
      (.absoluteX, 0x1D), (.absoluteY, 0x19), (.indirectX, 0x01), (.indirectY, 0x11)]
  | .pha => [(.implied, 0x48)]
  | .php => [(.implied, 0x08)]
  | .pla => [(.implied, 0x68)]
  | .plp => [(.implied, 0x28)]
  | .rol => [(.accumulator, 0x2A), (.zeroPage, 0x26), (.zeroPageX, 0x36),
      (.absolute, 0x2E), (.absoluteX, 0x3E)]
  | .ror => [(.accumulator, 0x6A), (.zeroPage, 0x66), (.zeroPageX, 0x76),
      (.absolute, 0x6E), (.absoluteX, 0x7E)]
  | .rti => [(.implied, 0x40)]
  | .rts => [(.implied, 0x60)]
  | .sbc => [(.immediate, 0xE9), (.zeroPage, 0xE5), (.zeroPageX, 0xF5), (.absolute, 0xED),
      (.absoluteX, 0xFD), (.absoluteY, 0xF9), (.indirectX, 0xE1), (.indirectY, 0xF1)]
  | .sec => [(.implied, 0x38)]
  | .sed => [(.implied, 0xF8)]
  | .sei => [(.implied, 0x78)]
  | .sta => [(.zeroPage, 0x85), (.zeroPageX, 0x95), (.absolute, 0x8D), (.absoluteX, 0x9D),
      (.absoluteY, 0x99), (.indirectX, 0x81), (.indirectY, 0x91)]
  | .stx => [(.zeroPage, 0x86), (.zeroPageY, 0x96), (.absolute, 0x8E)]
  | .sty => [(.zeroPage, 0x84), (.zeroPageX, 0x94), (.absolute, 0x8C)]
  | .tax => [(.implied, 0xAA)]
  | .tay => [(.implied, 0xA8)]
  | .tsx => [(.implied, 0xBA)]
  | .txa => [(.implied, 0x8A)]
  | .txs => [(.implied, 0x9A)]
  | .tya => [(.implied, 0x98)]

def code? (mnemonic : Mnemonic) (mode : Mode) : Option UInt8 := (modes mnemonic).lookup mode

def has (mnemonic : Mnemonic) (mode : Mode) : Bool := (code? mnemonic mode).isSome

/-- The named pair has no opcode. -/
structure NotFound where
  mnemonic : Text
  mode : Text
deriving DecidableEq, Repr

def NotFound.message (e : NotFound) : Text :=
  ascii "opcode not found: " ++ e.mnemonic ++ ascii " " ++ e.mode

def lookup (mnemonic : Mnemonic) (mode : Mode) : Except NotFound UInt8 :=
  match code? mnemonic mode with
  | some code => .ok code
  | none => .error ⟨mnemonic.name, mode.name⟩

/-! ## The table by numbers -/

/-- The item with a number in a list that is numbered from 0. -/
def numbered? {α : Type} (items : List α) (number : Int) : Option α :=
  if 0 ≤ number then items[number.toNat]? else none

/-- The name of the instruction with a number; a number without one is shown. -/
def mnemonicName (number : Int) : Text :=
  match numbered? Mnemonic.all number with
  | some mnemonic => mnemonic.name
  | none => ascii "Mnemonic(" ++ integer number ++ ascii ")"

def modeName (number : Int) : Text :=
  match numbered? Mode.all number with
  | some mode => mode.name
  | none => ascii "Mode(" ++ integer number ++ ascii ")"

structure Row where
  mode : Text
  length : Nat
  has : Bool
  wide : Text
  widens : Bool
  code : Except NotFound UInt8

/-- The row of a pair of numbers. A number without a mode has two bytes, as
most modes do, and does not widen. -/
def row (mnemonic mode : Int) : Row :=
  let known := numbered? Mode.all mode
  let wide := known.bind Mode.widen?
  let code := match numbered? Mnemonic.all mnemonic, known with
    | some m, some k => lookup m k
    | _, _ => .error ⟨mnemonicName mnemonic, modeName mode⟩
  { mode := modeName mode
    length := (known.map Mode.length).getD 2
    has := code.isOk
    wide := (wide.map Mode.name).getD (modeName mode)
    widens := wide.isSome
    code := code }

end Opcode

end Asm6502
