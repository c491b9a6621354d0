-- The functions that every inline program knows.
import Asm6502.Inline.Operation

namespace Asm6502

namespace Inline

def universalNames : List String :=
  ["None", "True", "False", "abs", "any", "all", "bool", "bytes", "chr", "dict", "dir",
    "enumerate", "fail", "float", "getattr", "hasattr", "hash", "int", "len", "list", "max", "min",
    "ord", "print", "range", "repr", "reversed", "sorted", "str", "tuple", "type", "zip"]

def universal? (name : Text) : Option Value :=
  if name = ascii "None" then some .nothing
  else if name = ascii "True" then some (.bool true)
  else if name = ascii "False" then some (.bool false)
  else if universalNames.any fun n => ascii n == name then some (.builtin name)
  else none

namespace Builtin

/-- The value of a letter or digit as a digit of a base up to 36. -/
def digit? (b : UInt8) : Option Nat :=
  if isDigit b then some (b.toNat - 0x30)
  else if isUpper b then some (b.toNat - 0x41 + 10)
  else if isLower b then some (b.toNat - 0x61 + 10)
  else none

def unsigned? (base : Nat) (t : Text) : Option Nat :=
  if t.isEmpty then none
  else
    t.foldlM (fun n b => (digit? b).bind fun d => if d < base then some (n * base + d) else none) 0

/-- The base that a text `0x...`, `0o...` or `0b...` announces. -/
def announced? : Text → Option Nat
  | 0x30 :: b :: _ :: _ =>
    if b == 0x78 || b == 0x58 then some 16
    else if b == 0x6F || b == 0x4F then some 8
    else if b == 0x62 || b == 0x42 then some 2
    else none
  | _ => none

/-- An unsigned integer in a base. The base may be announced, and base 0 takes
the announced one or ten; without announcement a leading 0 must be all there is. -/
def magnitude? (base : Nat) (t : Text) : Option Nat :=
  match announced? t with
  | some b =>
    if base = 0 ∨ base = b then unsigned? b (t.drop 2)
    else unsigned? base t
  | none =>
    if base = 0 then
      if 1 < t.length ∧ t.head? = some Ascii.zero then
        if t.all (· == Ascii.zero) then some 0 else none
      else unsigned? 10 t
    else unsigned? base t

def parseInt? (base : Nat) (t : Text) : Option Int :=
  match t with
  | Ascii.plus :: rest => (magnitude? base rest).map fun n => (n : Int)
  | Ascii.minus :: rest => (magnitude? base rest).map fun n => -(n : Int)
  | _ => (magnitude? base t).map fun n => (n : Int)

/-- The integer of a value: a text in a base, a truncated number or a truth
value. Only a text may come with a base. -/
def int? (x : Value) (base : Option Value) : Option Value :=
  match x, base with
  | .string s, none => (parseInt? 10 s).map .int
  | .string s, some base =>
    base.toInt32?.bind fun b =>
      if b = 0 ∨ (2 ≤ b ∧ b ≤ 36) then (parseInt? b.toNat s).map .int else none
  | .bool b, none => some (.int (if b then 1 else 0))
  | x, none => (Format.integer? x).map .int
  | _, some _ => none

def ord? : Value → Option Value
  | .string s =>
    match Utf8.next s with
    | some (code, []) => some (.int code)
    | _ => none
  | _ => none

def len? (store : Store) : Value → Option Value
  | .string s => some (.int s.length)
  | x => (x.sequence? store).map fun items => .int items.length

def abs? : Value → Option Value
  | .int n => some (.int n.natAbs)
  | .float a => some (.float a.abs)
  | _ => none

/-! ## Extremes -/

/-- The first item whose key no other key beats, where `op` says what beats it. -/
def extreme? (store : Store) (op : BinaryOp) (key : Value → Option Value) (items : List Value) :
    Option Value :=
  match items with
  | [] => none
  | x :: rest => do
    let step (best : Value × Value) (y : Value) : Option (Value × Value) := do
      let k ← key y
      return if ← Value.compare? store op k best.2 then (y, k) else best
    let best ← rest.foldlM step (x, ← key x)
    return best.1

/-- The items that `min` and `max` choose from: the arguments, or the items of
the only one. -/
def choices? (store : Store) : List Value → Option (List Value)
  | [x] => x.sequence? store
  | args => some args

def beating? (name : Text) : Option BinaryOp :=
  if name = ascii "max" then some .greater
  else if name = ascii "min" then some .less
  else none

/-! ## Calls -/

def callPlain? (store : Store) (name : Text) (args : List Value) : Option Value :=
  match beating? name, args with
  | some op, args => (choices? store args).bind (extreme? store op some)
  | none, [] => if name = ascii "bool" then some (.bool false) else none
  | none, [x] =>
    if name = ascii "int" then int? x none
    else if name = ascii "len" then len? store x
    else if name = ascii "ord" then ord? x
    else if name = ascii "abs" then abs? x
    else if name = ascii "bool" then some (.bool (x.truth store))
    else if name = ascii "str" then some (.string (x.text store))
    else none
  | none, [x, base] => if name = ascii "int" then int? x (some base) else none
  | none, _ => none

/-- The arguments of a function in the order of its parameters, from those that
come in order and those that come by name. The first parameter needs one. -/
def parameters? (names : List Text) (args : List Value) (named : List (Text × Value)) :
    Option (List (Option Value)) :=
  let free := names.drop args.length
  if args.length ≤ names.length && named.all fun (key, _) => free.contains key then
    some (args.map some ++ free.map fun key => named.lookup key)
  else none

/-- Calls a function with its arguments in order and its named arguments. Only
`int` has names for its own, and `min` and `max` take a function for the keys. -/
def call? (store : Store) (name : Text) (args : List Value) (named : List (Text × Value)) :
    Option Value :=
  if named.isEmpty then callPlain? store name args
  else if name = ascii "int" then
    match parameters? [ascii "x", ascii "base"] args named with
    | some [some x, base] => int? x base
    | _ => none
  else
    match beating? name, named with
    | some op, [(key, .builtin f)] =>
      if key = ascii "key" ∧ !args.isEmpty then
        (choices? store args).bind (extreme? store op fun x => callPlain? store f [x])
      else none
    | _, _ => none

end Builtin

end Inline

end Asm6502
