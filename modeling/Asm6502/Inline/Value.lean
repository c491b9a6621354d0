-- Values of the inline language, the store that holds its lists, and the text
-- of a value.
import Asm6502.Inline.Double
import Asm6502.Text.Quoted

namespace Asm6502

namespace Inline

inductive Value where
  | nothing
  | bool (value : Bool)
  | int (value : Int)
  | float (value : Float)
  | string (content : Text)
  | tuple (items : List Value)
  /-- A list, by its place in the store. -/
  | list (place : Nat)
  | builtin (name : Text)

/-! ## Lists -/

/-- The lists of a running program. Values that hold the same place are one and
the same list, so a change to it shows in all of them. -/
structure Store where
  lists : Array (List Value) := #[]

namespace Store

def items (store : Store) (place : Nat) : List Value := store.lists.getD place []

def add (store : Store) (items : List Value) : Value × Store :=
  (.list store.lists.size, { store with lists := store.lists.push items })

def set (store : Store) (place : Nat) (items : List Value) : Store :=
  { store with lists := store.lists.setIfInBounds place items }

end Store

/-- A part of a run: it may fail, and it may add lists and change them. -/
abbrev Run := StateT Store Option

namespace Run

/-- What the store tells, if it tells anything. -/
def read {α : Type} (view : Store → Option α) : Run α := do view (← get)

/-- A list that is new to the store. -/
def newList (items : List Value) : Run Value := modifyGet fun store => store.add items

end Run

namespace Value

def sequence? (store : Store) : Value → Option (List Value)
  | .tuple items => some items
  | .list place => some (store.items place)
  | _ => none

def truth (store : Store) : Value → Bool
  | .nothing => false
  | .bool b => b
  | .int n => n != 0
  | .float x => x != 0
  | .string s => !s.isEmpty
  | .tuple items => !items.isEmpty
  | .list place => !(store.items place).isEmpty
  | .builtin _ => true

/-! ## Text -/

mutual

/-- The text of a value inside the lists of `path`; there are `fresh` lists that
it is not inside of. A list inside itself is only hinted at. -/
def renderWithin (store : Store) (fresh : Nat) (path : List Nat) (x : Value) : Text :=
  match x, fresh with
  | .nothing, _ => ascii "None"
  | .bool b, _ => ascii (if b then "True" else "False")
  | .int n, _ => integer n
  | .float a, _ => Double.render a
  | .string s, _ => Quoted.render s
  | .tuple [x], fresh => ascii "(" ++ renderWithin store fresh path x ++ ascii ",)"
  | .tuple items, fresh => ascii "(" ++ renderAll store fresh path items ++ ascii ")"
  | .list _, 0 => ascii "[...]"
  | .list place, fresh + 1 =>
    if path.contains place then ascii "[...]"
    else ascii "[" ++ renderAll store fresh (place :: path) (store.items place) ++ ascii "]"
  | .builtin name, _ => ascii "<built-in function " ++ name ++ ascii ">"
termination_by (fresh, sizeOf x)

def renderAll (store : Store) (fresh : Nat) (path : List Nat) (items : List Value) : Text :=
  match items with
  | [] => []
  | [x] => renderWithin store fresh path x
  | x :: rest =>
    renderWithin store fresh path x ++ ascii ", " ++ renderAll store fresh path rest
termination_by (fresh, sizeOf items)

end

def render (store : Store) (x : Value) : Text := renderWithin store store.lists.size [] x

/-- The text of a value on its own; a string is its own text. -/
def text (store : Store) : Value → Text
  | .string s => s
  | x => x.render store

end Value

end Inline

end Asm6502
