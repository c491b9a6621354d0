-- Texts with conversions such as `%d`, which the items of a tuple, or a single
-- value, fill in. Nothing stands for a text that cannot be filled in.
import Asm6502.Inline.Value

namespace Asm6502

namespace Inline

namespace Format

def places : Nat := 6

def integer? : Value → Option Int
  | .int n => some n
  | .float x => if Double.isFinite x then some (Double.truncate x) else none
  | _ => none

/-- The double of a number; too large an integer is infinite. -/
def double? : Value → Option Float
  | .int n => some (Double.ofInt n)
  | .float x => some x
  | _ => none

def inBase (base : Nat) (n : Int) : Text :=
  let digits := (Nat.toDigits base n.natAbs).map Char.toUInt8
  if n < 0 then Ascii.minus :: digits else digits

def upper (t : Text) : Text := t.map fun b => if isLower b then b - 0x20 else b

/-- A finite double is written in upper case, and others as ever. -/
def upperFinite (write : Float → Text) (x : Float) : Text :=
  if Double.isFinite x then upper (write x) else write x

/-- The text of one code point, or of a text that is one. -/
def character? : Value → Option Text
  | .int n =>
    if n < 0 ∨ 0x10FFFF < n then none
    else some (Utf8.encode (if 0xD800 ≤ n ∧ n ≤ 0xDFFF then Utf8.replacement else n.toNat))
  | .string s =>
    match Utf8.next s with
    | some (code, []) => some (Utf8.encode code)
    | _ => none
  | _ => none

/-- The text of a value under the conversion of a letter. An `F` stands for
itself if the number is finite. -/
def convert? (store : Store) (letter : Char) (x : Value) : Option Text :=
  match letter with
  | 's' => some (x.text store)
  | 'r' => some (x.render store)
  | 'd' | 'i' => (integer? x).map integer
  | 'o' => (integer? x).map (inBase 8)
  | 'x' => (integer? x).map (inBase 16)
  | 'X' => (integer? x).map fun n => upper (inBase 16 n)
  | 'e' => (double? x).map (Double.renderScientific places)
  | 'E' => (double? x).map (upperFinite (Double.renderScientific places))
  | 'f' => (double? x).map (Double.renderFixed places)
  | 'F' => (double? x).map fun a => if Double.isFinite a then ascii "%F" else Double.render a
  | 'g' => (double? x).map Double.render
  | 'G' => (double? x).map (upperFinite Double.render)
  | 'c' => character? x
  | _ => none

/-- Fills the conversions of a text with values in order, all of which must be
used up. Two percent signs stand for one. -/
def fill? (store : Store) : Text → List Value → Option Text
  | [], [] => some []
  | [], _ :: _ => none
  | b :: rest, values =>
    if b != Ascii.percent then (fill? store rest values).map (b :: ·)
    else
      match rest, values with
      | Ascii.percent :: rest, values => (fill? store rest values).map (Ascii.percent :: ·)
      | letter :: rest, x :: values => do
        let start ← convert? store (Char.ofUInt8 letter) x
        let after ← fill? store rest values
        return start ++ after
      | _, _ => none

end Format

/-- Fills the conversions of a text with the items of a tuple, or with a value
of another kind. -/
def Value.format? (store : Store) (t : Text) : Value → Option Text
  | .tuple items => Format.fill? store t items
  | x => Format.fill? store t [x]

end Inline

end Asm6502
