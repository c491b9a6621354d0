-- Constants that are given on the command line: the text of a signed 64 bit
-- integer, in the base that its beginning tells.
import Asm6502.Inline.Builtin

namespace Asm6502

namespace Inline

namespace Predefine

/-- Underscores stand only between digits, or between the base and a digit. The
flag says whether a digit or the base came right before. -/
def separatorsFit (afterDigit : Bool) : Text → Bool
  | [] => true
  | b :: rest =>
    if b == Ascii.underscore then
      afterDigit && !rest.isEmpty && rest.head? != some Ascii.underscore && separatorsFit false rest
    else separatorsFit true rest

/-- The digits of a magnitude with its base: `0x`, `0o` and `0b` announce it, a
leading 0 means 8, and ten is the rule. The flag says whether an underscore may
come first. -/
def baseOf (t : Text) : Nat × Bool × Text :=
  match Builtin.announced? t with
  | some base => (base, true, t.drop 2)
  | none => if t.head? == some Ascii.zero then (8, true, t.drop 1) else (10, false, t)

def magnitude? (t : Text) : Option Nat :=
  if t.isEmpty then none
  else
    let (base, afterDigit, digits) := baseOf t
    let plain := digits.filter (· != Ascii.underscore)
    if !separatorsFit afterDigit digits then none
    else if plain.isEmpty then if base = 8 && digits.isEmpty then some 0 else none
    else Builtin.unsigned? base plain

/-- The integer that a text spells, if it fits 64 bits. -/
def parse? (t : Text) : Option Int :=
  match t with
  | Ascii.plus :: rest =>
    (magnitude? rest).bind fun n => if n < Nat.pow 2 63 then some n else none
  | Ascii.minus :: rest =>
    (magnitude? rest).bind fun n => if n ≤ Nat.pow 2 63 then some (-(n : Int)) else none
  | _ => (magnitude? t).bind fun n => if n < Nat.pow 2 63 then some n else none

end Predefine

end Inline

end Asm6502
