/-!
This module contains JSON numbers as they are written, and their two readings: as an integer of 64
bits and as a double.
-/

namespace GramIndex.Json

/--
A number as written: sign, whole part, fraction and exponent, each a run of decimal digits.
-/
structure Number where
  negative : Bool
  whole : List Char
  fraction : Option (List Char)
  /-- Whether the exponent is negative, and its digits. -/
  exponent : Option (Bool × List Char)
  deriving DecidableEq, Repr

namespace Number

def digit (c : Char) : Nat :=
  c.toNat - '0'.toNat

def digitsToNat (digits : List Char) : Nat :=
  digits.foldl (fun n c => 10 * n + digit c) 0

/--
The integer that a number stands for if it is written with neither sign, fraction nor exponent and
fits 64 bits.
-/
def toUInt64? (n : Number) : Option UInt64 :=
  match n with
  | ⟨false, whole, none, none⟩ =>
    let value := digitsToNat whole
    if value < UInt64.size then some (.ofNat value) else none
  | _ => none

/--
Append digits to `significand` for as long as it fits 64 bits. Also returns the digits from the
first one on that does not fit.
-/
def accumulate (significand : Nat) : List Char → Nat × List Char
  | [] => (significand, [])
  | c :: cs =>
    let next := 10 * significand + digit c
    if next < UInt64.size then accumulate next cs else (significand, c :: cs)

/--
The greatest power of ten that is a double.
-/
def greatestPower : Nat := 308

def powerOfTen (n : Nat) : Float :=
  Float.ofScientific 1 false n

/--
Divide by a power of ten, in steps that are doubles themselves, until the value is used up.
-/
def divideByPower (x : Float) (power : Nat) : Float :=
  if power ≤ greatestPower then
    x / powerOfTen power
  else if x == 0 then
    x
  else
    divideByPower (x / powerOfTen greatestPower) (power - greatestPower)
termination_by power
decreasing_by unfold greatestPower at *; omega

/--
Multiply by a power of ten, unless the result is out of range.
-/
def multiplyByPower (x : Float) (power : Nat) : Option Float :=
  if power ≤ greatestPower then
    let product := x * powerOfTen power
    if product.isInf then none else some product
  else if x == 0 then
    some x
  else
    none

/--
The double that a number stands for. The significand is made of the leading digits that fit 64 bits;
the digits of the whole part beyond them count as zeros, and those of the fraction do not count at
all. It is rounded to a double and then multiplied with or divided by the power of ten, so the
result can be one unit off the nearest double when there are many digits or the power is large. A
number beyond the range has no double.
-/
def toDouble? (n : Number) : Option Float := do
  let (head, dropped) := accumulate 0 n.whole
  let fraction := n.fraction.getD []
  let (significand, ignored) := accumulate head fraction
  let written : Int := match n.exponent with
    | none => 0
    | some (negative, digits) => if negative then -digitsToNat digits else digitsToNat digits
  let power : Int := written + dropped.length - (fraction.length - ignored.length : Nat)
  let x := significand.toUInt64.toFloat
  let magnitude ← if 0 ≤ power then
      multiplyByPower x power.toNat
    else
      some (divideByPower x (-power).toNat)
  return if n.negative then -magnitude else magnitude

end Number

end GramIndex.Json
