-- The label listing for a debugger: a line `P:offset:name` for every listed
-- label, in the order of the addresses.
import Asm6502.Label

namespace Asm6502

namespace Label

/-- The lowest listed address, from which offsets are counted. -/
def listingBase : UInt16 := 0x8000

/-- The upper case letters among the first 256 code points. -/
def isUpperLatin (b : UInt8) : Bool :=
  isUpper b || (0xC0 ≤ b && b ≤ 0xD6) || (0xD8 ≤ b && b ≤ 0xDE)

/-- A label is listed if it is global, has no dot in its name, does not begin
with an upper case letter and lies at or above the base. -/
def Entry.isListed (entry : Entry) : Bool :=
  isGlobal entry.name && !entry.name.contains Ascii.dot && !entry.name.head?.any isUpperLatin &&
    decide (listingBase ≤ entry.address.value)

def Entry.listingLine (entry : Entry) : Text :=
  ascii "P:" ++ hexWord (entry.address.value - listingBase) ++ ascii ":" ++ entry.name ++
    [Ascii.newline]

def Table.listing (table : Table) : Text :=
  (table.sorted.filter Entry.isListed).flatMap Entry.listingLine

end Label

end Asm6502
