import GramIndex.Decimal.Shortest

/-!
This module contains the written forms of a double: the shortest digits, laid out with or without an
exponent as a `Layout` decides.
-/

namespace GramIndex.Decimal

structure Layout where
  /-- Where a value half way between two shortest decimals goes. -/
  tie : Tie
  /--
  The least and the greatest power of ten of the first digit that are written without an exponent.
  Without bounds no exponent is ever written.
  -/
  positionalRange : Option (Int × Int)
  /-- Whether a whole number written without an exponent ends in a point and a zero. -/
  wholeFraction : Bool
  nan : String
  infinite : Bool → String

def zeros (n : Nat) : List Char :=
  List.replicate n '0'

def positional (wholeFraction : Bool) (d : Decimal) : List Char :=
  let digits := Nat.toDigits 10 d.coefficient
  if 0 ≤ d.exponent then
    digits ++ zeros d.exponent.toNat ++ (if wholeFraction then ['.', '0'] else [])
  else
    let places := (-d.exponent).toNat
    if places < digits.length then
      digits.take (digits.length - places) ++ '.' :: digits.drop (digits.length - places)
    else
      '0' :: '.' :: zeros (places - digits.length) ++ digits

/--
One digit before the point, the others after it, and a signed exponent of ten.
-/
def scientific (d : Decimal) : List Char :=
  let digits := Nat.toDigits 10 d.coefficient
  let exponent := d.exponent + (digits.length - 1 : Nat)
  let rest := digits.drop 1
  digits.take 1 ++ (if rest.isEmpty then [] else '.' :: rest) ++
    'e' :: (if exponent < 0 then '-' else '+') :: Nat.toDigits 10 exponent.natAbs

/--
The power of ten of the first digit.
-/
def leading (d : Decimal) : Int :=
  d.exponent + ((Nat.toDigits 10 d.coefficient).length - 1 : Nat)

def Layout.magnitude (layout : Layout) (d : Decimal) : List Char :=
  match layout.positionalRange with
  | none => positional layout.wholeFraction d
  | some (least, greatest) =>
    if d.coefficient = 0 || (least ≤ d.leading && d.leading ≤ greatest) then
      positional layout.wholeFraction d
    else
      scientific d

/--
The written form of a double. A zero keeps its sign.
-/
def Layout.write (layout : Layout) (x : Float) : String :=
  match Reading.ofFloat x with
  | .nan => layout.nan
  | .infinite negative => layout.infinite negative
  | .finite negative v =>
    String.ofList ((if negative then ['-'] else []) ++ layout.magnitude (shortest layout.tie v))

end GramIndex.Decimal
