/-!
This module contains the reading of a double from its bits: what kind of value it is, and for a
finite one its sign, its mantissa and its power of two.
-/

namespace GramIndex.Decimal

/--
A finite double without its sign: the value is `mantissa * 2 ^ exponent`.
-/
structure Binary where
  mantissa : Nat
  exponent : Int
  deriving DecidableEq, Repr

/--
What the bits of a double say. A zero is finite with mantissa zero.
-/
inductive Reading where
  | nan
  | infinite (negative : Bool)
  | finite (negative : Bool) (value : Binary)
  deriving DecidableEq, Repr

/--
The number of bits that follow the leading bit of a normal mantissa.
-/
def fractionBits : Nat := 52

/--
The power of two of the last mantissa bit of the smallest doubles.
-/
def leastExponent : Int := -1074

/--
Read the 64 bits of a double: a sign bit, eleven bits of exponent, and the fraction.
-/
def Reading.ofBits (bits : UInt64) : Reading :=
  let n := bits.toNat
  let negative := Nat.pow 2 63 ≤ n
  let biased := n / Nat.pow 2 fractionBits % Nat.pow 2 11
  let fraction := n % Nat.pow 2 fractionBits
  if biased = Nat.pow 2 11 - 1 then
    if fraction = 0 then .infinite negative else .nan
  else if biased = 0 then
    .finite negative ⟨fraction, leastExponent⟩
  else
    .finite negative ⟨Nat.pow 2 fractionBits + fraction, leastExponent + (biased - 1 : Nat)⟩

def Reading.ofFloat (x : Float) : Reading :=
  .ofBits x.toBits

/--
Whether the next smaller double is nearer than the next larger one. That is so at the powers of two,
the smallest normal one apart.
-/
def Binary.narrowBelow (v : Binary) : Bool :=
  v.mantissa = Nat.pow 2 fractionBits && leastExponent < v.exponent

end GramIndex.Decimal
