-- Addresses: a byte of the zero page, or a full 16 bit address.
import Asm6502.Text

namespace Asm6502

/-- An address and whether it is known to lie in the zero page. -/
inductive Address where
  | zeroPage (value : UInt8)
  | full (value : UInt16)
deriving DecidableEq, Repr

namespace Address

def value : Address → UInt16
  | .zeroPage b => b.toUInt16
  | .full w => w

def isZeroPage : Address → Bool
  | .zeroPage _ => true
  | .full _ => false

def low (a : Address) : UInt8 := a.value.toUInt8

def high (a : Address) : UInt8 := (a.value >>> 8).toUInt8

def render : Address → Text
  | .zeroPage b => ascii "ZeroPage($" ++ hexByte b ++ ascii ")"
  | .full w => ascii "Full($" ++ hexWord w ++ ascii ")"

@[simp] theorem value_zeroPage (b : UInt8) : (zeroPage b).value = b.toUInt16 := rfl

@[simp] theorem value_full (w : UInt16) : (full w).value = w := rfl

end Address

end Asm6502
