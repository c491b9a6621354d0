-- Labels and their scopes. A global label opens a scope, a local label
-- `.name` belongs to the scope that is open where it stands, and a generated
-- label `#macro_N` belongs to no scope.
import Asm6502.Address

namespace Asm6502

namespace Label

/-! ## Kinds of labels -/

/-- How the labels that control constructs generate begin. -/
def generatedStart : Text := ascii "#macro_"

def isLocal (name : Text) : Bool := name.head? == some Ascii.dot

def isGenerated (name : Text) : Bool := startsWith generatedStart name

/-- A label that opens a scope. -/
def isGlobal (name : Text) : Bool := !name.isEmpty && !isLocal name && !isGenerated name

/-! ## Errors -/

inductive Fault where
  /-- No label of that name is defined. -/
  | missing (name : Text)
  /-- A local label stands where no scope is open. -/
  | scopeless (name : Text)
  /-- A label of that name is defined already. -/
  | duplicate (name : Text) (line prior : Int)
deriving DecidableEq, Repr

namespace Fault

def message : Fault → Text
  | .missing name => ascii "label not found: " ++ name
  | .scopeless name => ascii "global label not found for " ++ name
  | .duplicate name line prior =>
    ascii "line " ++ grouped line ++ ascii " label <" ++ name ++ ascii "> already used on line " ++
      grouped prior

/-- Whether a later definition may still give the label an address. -/
def isUnresolved : Fault → Bool
  | .missing _ | .scopeless _ => true
  | .duplicate .. => false

end Fault

/-- How an expression finds the address of a name. -/
abbrev View := Text → Except Fault Address

def View.empty : View := fun name => .error (.missing name)

/-! ## The table -/

structure Entry where
  name : Text
  /-- The line of the definition. -/
  line : Int
  address : Address
deriving DecidableEq, Repr

/-- The defined labels, in order of definition, and the open scope: the name of
a global label, or nothing. -/
structure Table where
  entries : List Entry := []
  scope : Text := []
deriving DecidableEq, Repr

namespace Table

/-- The full name of a label: a local one is put behind its scope. -/
def qualify (table : Table) (name : Text) : Except Fault Text :=
  if isLocal name then
    if table.scope.isEmpty then .error (.scopeless name) else .ok (table.scope ++ name)
  else .ok name

def get? (table : Table) (name : Text) : Option Entry :=
  table.entries.find? fun entry => entry.name == name

/-- A global label opens its scope; other labels leave the scope as it is. -/
def enter (table : Table) (name : Text) : Table :=
  if isGlobal name then { table with scope := name } else table

def leave (table : Table) : Table := { table with scope := [] }

/-- What an operation on a table gives: the table behind it, and its result. -/
structure Change (α : Type) where
  table : Table
  result : Except Fault α

/-- Defines a label at an address and enters it. Gives its full name. -/
def define (table : Table) (name : Text) (line : Int) (address : UInt16) : Change Text :=
  match table.qualify name with
  | .error fault => { table, result := .error fault }
  | .ok full =>
    match table.get? full with
    | some prior => { table, result := .error (.duplicate full line prior.line) }
    | none =>
      let entry : Entry := { name := full, line := line, address := .full address }
      { table := { table with entries := table.entries ++ [entry] }.enter name
        result := .ok full }

/-- Moves a defined label, given by its full name, to another address. -/
def fix (table : Table) (full : Text) (address : Address) : Change Unit :=
  match table.get? full with
  | none => { table, result := .error (.missing full) }
  | some _ =>
    let move (entry : Entry) : Entry :=
      if entry.name == full then { entry with address := address } else entry
    { table := { table with entries := table.entries.map move }, result := .ok () }

def lookup (table : Table) : View := fun name => do
  let full ← table.qualify name
  match table.get? full with
  | some entry => .ok entry.address
  | none => .error (.missing full)

/-- By address, and by name where addresses are equal. -/
def precedes (a b : Entry) : Bool :=
  a.address.value < b.address.value ||
    (a.address.value == b.address.value && decide (a.name ≤ b.name))

def sorted (table : Table) : List Entry := table.entries.mergeSort precedes

end Table

end Label

end Asm6502
