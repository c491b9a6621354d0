-- Doubles of the inline language by their exact values: comparison with
-- integers, truncation, remainder and decimal text.
import Asm6502.Text

namespace Asm6502

namespace Inline

namespace Double

/-- A finite double is `mantissa * 2 ^ exponent`. -/
structure Parts where
  mantissa : Int
  exponent : Int

def leastExponent : Int := -1074

def parts (x : Float) : Parts :=
  let bits := x.toBits.toNat
  let fraction : Nat := bits % Nat.pow 2 52
  let power : Nat := bits / Nat.pow 2 52 % Nat.pow 2 11
  let size : Nat := if power = 0 then fraction else fraction + Nat.pow 2 52
  { mantissa := if bits / Nat.pow 2 63 = 1 then -size else size
    exponent := leastExponent + (if power = 0 then 0 else power - 1 : Nat) }

def isFinite (x : Float) : Bool := !x.isNaN && !x.isInf

/-- Whether a double has a minus sign; a zero may have one. -/
def isSigned (x : Float) : Bool := x.toBits.toNat / Nat.pow 2 63 = 1

def ofScientific (mantissa : Nat) (exponent : Int) : Float :=
  Float.ofScientific mantissa (exponent < 0) exponent.natAbs

/-- The nearest double to an integer; beyond the largest one that is infinite. -/
def ofInt (n : Int) : Float :=
  if n < 0 then -(Float.ofNat n.natAbs) else Float.ofNat n.natAbs

def ofInt? (n : Int) : Option Float :=
  let x := ofInt n
  if x.isInf then none else some x

/-- The order of an integer and a double; every integer is below a double that
is no number. -/
def compareInt (n : Int) (x : Float) : Ordering :=
  if x.isNaN then .lt
  else if x.isInf then if 0 < x then .lt else .gt
  else
    let p := parts x
    if 0 ≤ p.exponent then compare n (p.mantissa * Nat.pow 2 p.exponent.toNat)
    else compare (n * Nat.pow 2 (-p.exponent).toNat) p.mantissa

/-- The order of two doubles; one that is no number is above all others. -/
def order (x y : Float) : Ordering :=
  if x > y then .gt
  else if x < y then .lt
  else if x == y then .eq
  else if !x.isNaN then .lt
  else if !y.isNaN then .gt
  else .eq

def truncate (x : Float) : Int :=
  let p := parts x
  if 0 ≤ p.exponent then p.mantissa * Nat.pow 2 p.exponent.toNat
  else p.mantissa.tdiv (Nat.pow 2 (-p.exponent).toNat)

/-! ## Remainders -/

/-- The remainder of two finite doubles, with the sign of the dividend; the
divisor is not 0. -/
def finiteRemainder (x y : Float) : Float :=
  let a := parts x
  let b := parts y
  let low := min a.exponent b.exponent
  let scaled (p : Parts) : Nat := p.mantissa.natAbs * Nat.pow 2 (p.exponent - low).toNat
  let size := (Float.ofNat (scaled a % scaled b)).scaleB low
  if isSigned x then -size else size

/-- The remainder of a division that cuts off the fraction. An infinite
dividend has none, and an infinite divisor leaves the dividend. -/
def remainder (x y : Float) : Float :=
  if !isFinite x || y.isNaN || y == 0 then 0 / 0
  else if y.isInf then x
  else finiteRemainder x y

/-- The remainder with the sign of the divisor; one that is 0 keeps the sign of
the dividend. -/
def floorMod (x y : Float) : Float :=
  let z := remainder x y
  if ((x < 0) != (y < 0)) && z != 0 then z + y else z

/-! ## Digits -/

/-- A quotient rounded to the nearest integer, halves to the even one. -/
def roundedDiv (num den : Nat) : Nat :=
  let q := num / den
  let rest := num % den
  if den < 2 * rest || (den == 2 * rest && q % 2 == 1) then q + 1 else q

def quotient (x : Float) : Nat × Nat :=
  let p := parts x
  (p.mantissa.natAbs * Nat.pow 2 p.exponent.toNat, Nat.pow 2 (-p.exponent).toNat)

/-- The number of digits before the point, or minus the number of zeros behind
it, of a positive quotient. -/
def pointPlace (num den : Nat) : Int :=
  if den ≤ num then (decimal (num / den)).length
  else
    match (List.range 340).find? fun j => den ≤ num * Nat.pow 10 (j + 1) with
    | some j => -(j : Int)
    | none => 0

def roundedAt (scale : Int) (num den : Nat) : Nat :=
  roundedDiv (num * Nat.pow 10 (-scale).toNat) (den * Nat.pow 10 scale.toNat)

/-- The numbers that read back as a positive finite double, in quarters of the
unit of its mantissa: all between two bounds, and the bounds themselves if the
mantissa is even. Doubles below a power of two lie twice as close. -/
structure Interval where
  low : Nat
  value : Nat
  high : Nat
  closed : Bool

def Interval.of (p : Parts) : Interval :=
  let size := p.mantissa.natAbs
  let narrow := size == Nat.pow 2 52 && leastExponent < p.exponent
  { low := 4 * size - (if narrow then 1 else 2)
    value := 4 * size
    high := 4 * size + 2
    closed := size % 2 == 0 }

def Interval.contains (i : Interval) (num den : Nat) : Bool :=
  if i.closed then i.low * den ≤ num && num ≤ i.high * den
  else i.low * den < num && num < i.high * den

/-- The multiple of a power of ten that reads back as a positive finite double,
if one does: the nearer one of the double's two neighbours, unless only the other
one reads back. -/
def atScale? (p : Parts) (scale : Int) : Option Nat :=
  let i := Interval.of p
  let unit := p.exponent - 2
  let step := Nat.pow 10 scale.toNat * Nat.pow 2 (-unit).toNat
  let den := Nat.pow 10 (-scale).toNat * Nat.pow 2 unit.toNat
  let below := i.value * den / step
  let nearer := roundedDiv (i.value * den) step
  let farther := if nearer = below then below + 1 else below
  [nearer, farther].find? fun digits => i.contains (digits * step) den

/-- The fewest digits, with their power of ten, that read back as a positive
finite double. Seventeen always do. -/
def shortest (x : Float) : Nat × Int :=
  let (num, den) := quotient x
  let place := pointPlace num den
  let candidate? (count : Nat) : Option (Nat × Int) :=
    (atScale? (parts x) (place - count)).map fun digits => (digits, place - count)
  ((List.range 17).findSome? fun n => candidate? (n + 1)).getD
    (roundedAt (place - 17) num den, place - 17)

/-! ## Text -/

def positional (digits : Text) (place : Int) : Text :=
  if place ≤ 0 then ascii "0." ++ List.replicate (-place).toNat Ascii.zero ++ digits
  else if place.toNat < digits.length then
    digits.take place.toNat ++ Ascii.dot :: digits.drop place.toNat
  else digits ++ List.replicate (place.toNat - digits.length) Ascii.zero ++ ascii ".0"

def scientific (digits : Text) (exponent : Int) : Text :=
  let size := decimal exponent.natAbs
  let size := if size.length < 2 then Ascii.zero :: size else size
  digits.take 1 ++ (if digits.length < 2 then [] else Ascii.dot :: digits.drop 1) ++
    ascii (if exponent < 0 then "e-" else "e+") ++ size

/-- The text of a double from that of its size, if it is finite. -/
def withSign (size : Float → Text) (x : Float) : Text :=
  if x.isNaN then ascii "nan"
  else if x.isInf then ascii (if 0 < x then "+inf" else "-inf")
  else if isSigned x then Ascii.minus :: size x.abs
  else size x

/-- The text of a double: the fewest digits that read back, positional if the
first digit stands for 0.0001 up to 100000. -/
def render : Float → Text :=
  withSign fun x =>
    if x == 0 then ascii "0.0"
    else
      let (value, scale) := shortest x
      let all := decimal value
      let digits := (all.reverse.dropWhile (· == Ascii.zero)).reverse
      let place : Int := all.length + scale
      if place - 1 < -4 || 6 ≤ place - 1 then scientific digits (place - 1)
      else positional digits place

def renderFixed (places : Nat) : Float → Text :=
  withSign fun x =>
    let (num, den) := quotient x
    let all := decimal (roundedAt (-places) num den)
    let all := List.replicate (places + 1 - all.length) Ascii.zero ++ all
    all.take (all.length - places) ++ Ascii.dot :: all.drop (all.length - places)

def renderScientific (places : Nat) : Float → Text :=
  withSign fun x =>
    if x == 0 then scientific (List.replicate (places + 1) Ascii.zero) 0
    else
      let (num, den) := quotient x
      let place := pointPlace num den
      let all := decimal (roundedAt (place - (places + 1)) num den)
      scientific (all.take (places + 1)) (place - 1 + (all.length - (places + 1) : Nat))

end Double

end Inline

end Asm6502
