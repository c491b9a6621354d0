-- Everything that can go wrong between reading source files and writing the
-- object file, and the text that tells it.
import Asm6502.Decode
import Asm6502.Inline

namespace Asm6502

inductive Error where
  /-- An error on a line of a file. -/
  | located (file : Text) (line : Int) (text : Text) (cause : Error)
  | line (error : LineError)
  | inline (error : Inline.Error)
  /-- A file is included while it is still being read. -/
  | circular (file : Text)
  /-- A file cannot be opened or read. -/
  | unreadable (file : Text) (cause : Error)
  /-- What the file system says. -/
  | system (reason : Text)
  /-- A loop is closed that was never opened. -/
  | unmatchedLoop
  | badCondition (text : Text)
  | unclosedLoop (label : Text) (line : Int)
  | value (error : ValueError)
  | label (fault : Label.Fault)
  | decode (error : DecodeError)
  | opcode (error : Opcode.NotFound)
  /-- Something is emitted before the first origin. -/
  | addressNotSet
  /-- The program runs over the end of memory. -/
  | addressOverflow
  /-- A label is moved on a line that has none. -/
  | labelNeeded
  | badData
  | badFill
  /-- A statement has another size than the one reserved for it. -/
  | sizeChanged
  | branchRange (address target : UInt16)
  | byteRange (text : Text) (value : UInt16)
  /-- A file cannot be written. -/
  | unwritable (file : Text) (cause : Error)
deriving DecidableEq, Repr

namespace Error

def message : Error → Text
  | .located file number text cause =>
    file ++ ascii ":" ++ grouped number ++ ascii " '" ++ text ++ ascii "' " ++ cause.message
  | .line error => error.message
  | .inline error => error.message
  | .circular file => ascii "circular include of " ++ file
  | .unreadable file cause => ascii "include " ++ file ++ ascii ": " ++ cause.message
  | .system reason => reason
  | .unmatchedLoop => ascii "unmatch do loop"
  | .badCondition text => ascii "invalid condition '" ++ text ++ ascii "'"
  | .unclosedLoop name number =>
    ascii "unclosed do loop " ++ name ++ ascii " from line " ++ grouped number
  | .value error => error.message
  | .label fault => fault.message
  | .decode error => error.message
  | .opcode error => error.message
  | .addressNotSet => ascii "address not set"
  | .addressOverflow => ascii "address overflow"
  | .labelNeeded => ascii "label def need label"
  | .badData => ascii "invalid data command"
  | .badFill => ascii "invalid fill command"
  | .sizeChanged => ascii "statement size changed between passes"
  | .branchRange address target =>
    ascii "branch from $" ++ hexWord address ++ ascii " to $" ++ hexWord target ++
      ascii " out of range"
  | .byteRange text word => text ++ ascii " is $" ++ hexWord word ++ ascii ", not a byte"
  | .unwritable file cause => ascii "can't write " ++ file ++ ascii ": " ++ cause.message

end Error

/-! ## Classes of errors -/

/-- What errors have in common, whatever they say. -/
inductive Error.Class where
  /-- Source text that cannot be read, or whose value cannot be computed. -/
  | malformed
  /-- A label that has no address yet. -/
  | unresolved
  /-- A constant or a value of an inline expression that is no integer. -/
  | notInteger
  | files
  | control
  | label
  | decode
  | opcode
  | program
deriving DecidableEq, Repr

def Label.Fault.classes : Label.Fault → List Error.Class
  | .missing _ => [.unresolved]
  | .scopeless _ => [.label, .unresolved]
  | .duplicate .. => [.label]

def Inline.Fault.classes : Inline.Fault → List Error.Class
  | .notInteger | .predefine .. => [.notInteger]
  | .program _ | .outOfRange => []

/-- The classes of an error. It is in the classes of its cause too, and what the
file system says is in none. -/
def Error.classes : Error → List Error.Class
  | .located _ _ _ cause => cause.classes
  | .line _ => [.malformed]
  | .inline error => .malformed :: error.fault.classes
  | .circular _ => [.files]
  | .unreadable _ cause | .unwritable _ cause => .files :: cause.classes
  | .system _ => []
  | .unmatchedLoop | .badCondition _ | .unclosedLoop .. => [.control]
  | .value (.label fault) | .label fault => fault.classes
  | .value _ => [.malformed]
  | .decode _ => [.decode]
  | .opcode _ => [.opcode]
  | .addressNotSet | .addressOverflow | .labelNeeded | .badData | .badFill | .sizeChanged
  | .branchRange .. | .byteRange .. => [.program]

/-- The decoder waits for a value exactly if the class of its error is that of
the unresolved labels. -/
theorem ValueError.isUnresolved_iff (error : ValueError) :
    error.isUnresolved = true ↔ .unresolved ∈ (Error.value error).classes := by
  cases error with
  | label fault => cases fault <;> simp [isUnresolved, Label.Fault.isUnresolved, Error.classes,
      Label.Fault.classes]
  | divideByZero | notAnAddress | notEvaluable | operator => simp [isUnresolved, Error.classes]

end Asm6502
