-- The operators of the inline language on its values: arithmetic, repetition,
-- joining and indexing.
import Asm6502.Inline.Format
import Asm6502.Inline.Order

namespace Asm6502

namespace Inline

namespace Value

/-! ## Numbers -/

def toDouble? : Value → Option Float
  | .int n => Double.ofInt? n
  | .float x => some x
  | _ => none

/-- Applies an operation of integers, or else one of doubles. -/
def numeric (ints : Int → Int → Option Int) (doubles : Float → Float → Option Float)
    (x y : Value) : Option Value :=
  match x, y with
  | .int a, .int b => (ints a b).map .int
  | _, _ => do
    let a ← x.toDouble?
    let b ← y.toDouble?
    return .float (← doubles a b)

def toInt32? : Value → Option Int
  | .int n => if -0x80000000 ≤ n ∧ n < 0x80000000 then some n else none
  | _ => none

/-- A shift count, which fits 32 bits and is not negative. -/
def shiftCount? (x : Value) : Option Nat :=
  x.toInt32?.bind fun n => if 0 ≤ n then some n.toNat else none

/-- A left shift must stay below this count. -/
def shiftLimit : Nat := 512

def bitwise? (op : BinaryOp) (a b : Int) : Option Int :=
  match op with
  | .bitAnd =>
    some (match a, b with
      | .ofNat m, .ofNat n => .ofNat (m &&& n)
      | .ofNat m, .negSucc n => .ofNat (m ^^^ (m &&& n))
      | .negSucc m, .ofNat n => .ofNat (n ^^^ (n &&& m))
      | .negSucc m, .negSucc n => .negSucc (m ||| n))
  | .bitOr =>
    some (match a, b with
      | .ofNat m, .ofNat n => .ofNat (m ||| n)
      | .ofNat m, .negSucc n => .negSucc (n ^^^ (n &&& m))
      | .negSucc m, .ofNat n => .negSucc (m ^^^ (m &&& n))
      | .negSucc m, .negSucc n => .negSucc (m &&& n))
  | .bitXor =>
    some (match a, b with
      | .ofNat m, .ofNat n => .ofNat (m ^^^ n)
      | .ofNat m, .negSucc n => .negSucc (m ^^^ n)
      | .negSucc m, .ofNat n => .negSucc (m ^^^ n)
      | .negSucc m, .negSucc n => .ofNat (m ^^^ n))
  | _ => none

/-! ## Sequences -/

/-- The most bytes or items that repetition may make. -/
def repeatLimit : Nat := Nat.pow 2 30

/-- A sequence repeated. An empty one stays empty; else the count fits 32 bits,
and one below 1 gives the empty sequence. -/
def repeated {α : Type} (items : List α) (count : Int) : Option (List α) :=
  if items.isEmpty then some []
  else
    (toInt32? (.int count)).bind fun n =>
      if repeatLimit ≤ items.length * n.toNat then none
      else some (List.replicate n.toNat items).flatten

/-- The place of an index in a sequence; a negative one counts from the end. -/
def place? (length : Nat) (i : Value) : Option Nat :=
  i.toInt32?.bind fun n =>
    let place := if n < 0 then n + length else n
    if 0 ≤ place ∧ place < length then some place.toNat else none

def index? (store : Store) (x i : Value) : Option Value :=
  match x with
  | .string s => do
    let place ← place? s.length i
    return .string [← s[place]?]
  | x => do
    let items ← x.sequence? store
    items[← place? items.length i]?

def setItem (x i item : Value) : Run Unit := do
  match x with
  | .list place =>
    let items := (← get).items place
    let n ← place? items.length i
    modify fun store => store.set place (items.set n item)
  | _ => failure

/-! ## Operators -/

/-- Joins two values, or adds them. -/
def add (x y : Value) : Run Value := do
  match x, y with
  | .string a, .string b => return .string (a ++ b)
  | .tuple a, .tuple b => return .tuple (a ++ b)
  | .list a, .list b =>
    let store ← get
    Run.newList (store.items a ++ store.items b)
  | _, _ => numeric (fun a b => some (a + b)) (fun a b => some (a + b)) x y

/-- Adds a value to another in place: a list is extended by the items of a
sequence. -/
def addInPlace (x y : Value) : Run Value := do
  match x, y.sequence? (← get) with
  | .list place, some items =>
    modify fun store => store.set place (store.items place ++ items)
    return x
  | _, _ => add x y

/-- Repeats a sequence, or multiplies two numbers. -/
def mul (x y : Value) : Run Value := do
  match x, y with
  | .string s, .int n | .int n, .string s => return .string (← repeated s n)
  | .tuple items, .int n | .int n, .tuple items => return .tuple (← repeated items n)
  | .list place, .int n | .int n, .list place =>
    Run.newList (← repeated ((← get).items place) n)
  | _, _ => numeric (fun a b => some (a * b)) (fun a b => some (a * b)) x y

def div? (x y : Value) : Option Value := do
  let a ← x.toDouble?
  let b ← y.toDouble?
  if b == 0 then none else some (.float (a / b))

def floorDiv? (x y : Value) : Option Value :=
  numeric (fun a b => if b = 0 then none else some (a.fdiv b))
    (fun a b => if b == 0 then none else some (a / b).floor) x y

/-- Fills the conversions of a text, or gives the remainder of two numbers. -/
def mod? (store : Store) (x y : Value) : Option Value :=
  match x with
  | .string s => (y.format? store s).map .string
  | _ =>
    numeric (fun a b => if b = 0 then none else some (a.fmod b))
      (fun a b => if b == 0 then none else some (Double.floorMod a b)) x y

def binary (op : BinaryOp) (x y : Value) : Run Value := do
  let store ← get
  match op with
  | .equal | .notEqual | .less | .greater | .lessEqual | .greaterEqual =>
    return .bool (← compare? store op x y)
  | .member => return .bool (← member? store x y)
  | .notMember => return .bool !(← member? store x y)
  | .bitOr | .bitXor | .bitAnd =>
    match x, y with
    | .int a, .int b => return .int (← bitwise? op a b)
    | _, _ => failure
  | .shiftLeft =>
    match x, shiftCount? y with
    | .int a, some n => if n < shiftLimit then return .int (a * Nat.pow 2 n) else failure
    | _, _ => failure
  | .shiftRight =>
    match x, shiftCount? y with
    | .int a, some n => return .int (a >>> n)
    | _, _ => failure
  | .add => add x y
  | .sub => numeric (fun a b => some (a - b)) (fun a b => some (a - b)) x y
  | .mul => mul x y
  | .div => div? x y
  | .floorDiv => floorDiv? x y
  | .mod => mod? store x y
  | .or => return if x.truth store then x else y
  | .and => return if x.truth store then y else x

def unary? (store : Store) (op : UnaryOp) (x : Value) : Option Value :=
  match op, x with
  | .not, x => some (.bool !(x.truth store))
  | .minus, .int n => some (.int (-n))
  | .minus, .float a => some (.float (-a))
  | .plus, .int n => some (.int n)
  | .plus, .float a => some (.float a)
  | .invert, .int n => some (.int (-n - 1))
  | _, _ => none

end Value

end Inline

end Asm6502
