-- Comparison of the values of the inline language, and membership. Nothing
-- stands for a comparison that fails.
import Asm6502.Inline.Term
import Asm6502.Inline.Value

namespace Asm6502

namespace Inline

namespace Value

/-! ## Comparison -/

def satisfies (op : BinaryOp) (order : Ordering) : Bool :=
  match op with
  | .equal => order == .eq
  | .notEqual => order != .eq
  | .less => order == .lt
  | .lessEqual => order != .gt
  | .greater => order == .gt
  | .greaterEqual => order != .lt
  | _ => false

def orderBytes (a b : Text) : Ordering := if a < b then .lt else if a = b then .eq else .gt

/-- Values that can only be told apart. -/
def sameOnly (op : BinaryOp) (same : Bool) : Option Bool :=
  match op with
  | .equal => some same
  | .notEqual => some !same
  | _ => none

/-- The first pair of items at the same place that are unequal; the inner
nothing if there is none, the outer one if a comparison fails. -/
def firstUnequal (equal : Value → Value → Option Bool) :
    List Value → List Value → Option (Option (Value × Value))
  | x :: xs, y :: ys => do
    if ← equal x y then firstUnequal equal xs ys else return some (x, y)
  | _, _ => some none

/-- Compares two values; sequences may be nested no deeper than `depth`. Values
of different kinds are unequal and have no order. -/
def compareWithin (store : Store) : Nat → BinaryOp → Value → Value → Option Bool
  | 0, _, _, _ => none
  | depth + 1, op, x, y =>
    let sequences (xs ys : List Value) : Option Bool :=
      if xs.length ≠ ys.length ∧ (op = .equal ∨ op = .notEqual) then some (op == .notEqual)
      else do
        match ← firstUnequal (compareWithin store depth .equal) xs ys with
        | some (a, b) =>
          match op with
          | .equal => return false
          | .notEqual => return true
          | _ => compareWithin store depth op a b
        | none => return satisfies op (compare xs.length ys.length)
    match x, y with
    | .nothing, .nothing => sameOnly op true
    | .bool a, .bool b => some (satisfies op (compare a.toNat b.toNat))
    | .int a, .int b => some (satisfies op (compare a b))
    | .float a, .float b => some (satisfies op (Double.order a b))
    | .int a, .float b => some (satisfies op (Double.compareInt a b))
    | .float a, .int b => some (satisfies op (Double.compareInt b a).swap)
    | .string a, .string b => some (satisfies op (orderBytes a b))
    | .tuple a, .tuple b => sequences a b
    | .list a, .list b => sequences (store.items a) (store.items b)
    | .builtin a, .builtin b => sameOnly op (a == b)
    | _, _ => sameOnly op false

/-- The deepest nesting that comparisons look into. -/
def compareDepth : Nat := 10

def compare? (store : Store) (op : BinaryOp) (x y : Value) : Option Bool :=
  compareWithin store compareDepth op x y

/-! ## Membership -/

def isAmong (store : Store) (x : Value) : List Value → Option Bool
  | [] => some false
  | y :: rest => do if ← compare? store .equal y x then return true else isAmong store x rest

def occursIn (part : Text) : Text → Bool
  | [] => part.isEmpty
  | b :: rest => startsWith part (b :: rest) || occursIn part rest

/-- Whether a value is an item of a sequence, or a string a part of a string. -/
def member? (store : Store) (x y : Value) : Option Bool :=
  match x, y with
  | .string a, .string b => some (occursIn a b)
  | x, y => (y.sequence? store).bind (isAmong store x)

end Value

end Inline

end Asm6502
