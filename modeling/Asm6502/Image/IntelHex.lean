-- Intel HEX files: their records, and the library that collects bytes and writes
-- them in records. It is no part of the assembler, whose rules hold for every
-- library that does what is said of it.
import Asm6502.Text

namespace Asm6502

namespace IntelHex

inductive Record where
  /-- Bytes from an address in the current bank on. -/
  | data (address : UInt16) (bytes : Text)
  /-- The bank of the records that follow. -/
  | bank (number : UInt16)
  | endOfFile
deriving DecidableEq, Repr

def bankSize : Nat := 0x10000

namespace Record

def bigEndian (w : UInt16) : Text := [(w >>> 8).toUInt8, w.toUInt8]

/-- The bytes of a record before its checksum: length, address, type, content. -/
def content : Record → Text
  | .data address bytes => UInt8.ofNat bytes.length :: bigEndian address ++ 0x00 :: bytes
  | .bank number => [0x02, 0x00, 0x00, 0x04] ++ bigEndian number
  | .endOfFile => [0x00, 0x00, 0x00, 0x01]

/-- The byte that makes the sum of a record 0. -/
def checksum (bytes : Text) : UInt8 := 0 - bytes.foldl (· + ·) 0

def render (record : Record) : Text :=
  Ascii.colon :: ((record.content ++ [checksum record.content]).flatMap hexByte ++ [Ascii.newline])

end Record

/-- Bytes from an address on, every one of which has a 32 bit address. -/
structure Segment where
  address : UInt32
  bytes : Text
  fits : address.toNat + bytes.length ≤ 0x100000000

/-- What collects bytes in a memory and writes the memory as a file. Adding bytes
may fail; writing fails only if a write does. -/
structure Library where
  Memory : Type
  empty : Memory
  segments : Memory → List Segment
  addBinary : Memory → (address : UInt32) → (bytes : Text) → Except Text Memory
  /-- The pieces that are written for a memory, with at most so many bytes in a data
  record. -/
  dump : Memory → (lineLength : UInt8) → List Text

end IntelHex

end Asm6502
