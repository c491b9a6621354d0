-- The library of the program for Intel HEX files. A data record never crosses into
-- another bank of 64 KiB, and a bank other than the first is announced before its
-- first record.
import Asm6502.Image.IntelHex

namespace Asm6502

namespace IntelHex

/-- The bytes that the next data record takes at an address. -/
def room (lineLength address : Nat) : Nat :=
  min (max 1 lineLength) (bankSize - address % bankSize)

theorem room_pos (lineLength address : Nat) : 0 < room lineLength address := by
  have : address % bankSize < bankSize := Nat.mod_lt _ (by decide)
  unfold room
  omega

/-- The records of bytes from an address on, where `bank` is the current bank. -/
def dataRecords (lineLength bank address : Nat) (bytes : Text) : List Record :=
  if h : bytes = [] then []
  else
    have : 0 < bytes.length := List.length_pos_iff.2 h
    let next := address / bankSize
    let announced := if next = bank then [] else [Record.bank (UInt16.ofNat next)]
    let size := room lineLength address
    announced ++ .data (UInt16.ofNat (address % bankSize)) (bytes.take size) ::
      dataRecords lineLength next (address + size) (bytes.drop size)
termination_by bytes.length
decreasing_by
  have := room_pos lineLength address
  rw [List.length_drop]
  omega

/-- The current bank behind records. -/
def bankBehind (bank : Nat) : List Record → Nat
  | [] => bank
  | .bank number :: rest => bankBehind number.toNat rest
  | _ :: rest => bankBehind bank rest

def segmentRecords (lineLength bank : Nat) : List Segment → List Record
  | [] => []
  | segment :: rest =>
    let first := dataRecords lineLength bank segment.address.toNat segment.bytes
    first ++ segmentRecords lineLength (bankBehind bank first) rest

def Segment.meets (one other : Segment) : Bool :=
  one.address.toNat < other.address.toNat + other.bytes.length &&
    other.address.toNat < one.address.toNat + one.bytes.length

/-- Adds bytes to a memory of segments, none of which may have an address in common
with them. -/
def addSegment (memory : List Segment) (address : UInt32) (bytes : Text) :
    Except Text (List Segment) :=
  if fits : address.toNat + bytes.length ≤ 0x100000000 then
    let segment : Segment := { address, bytes, fits }
    if memory.any segment.meets then .error (ascii "data segments overlap")
    else .ok (memory ++ [segment])
  else .error (ascii "data segment too long")

def dumpSegments (memory : List Segment) (lineLength : UInt8) : List Text :=
  (segmentRecords lineLength.toNat 0 memory ++ [Record.endOfFile]).map Record.render

def Library.builtIn : Library where
  Memory := List Segment
  empty := []
  segments := id
  addBinary := addSegment
  dump := dumpSegments

end IntelHex

end Asm6502
