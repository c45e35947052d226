import GramIndex.Decimal.Binary

/-!
This module contains the choice of the shortest decimal for a double: among the decimals with the
fewest digits that read back as the double, the one nearest to it.
-/

namespace GramIndex

/--
A non-negative decimal: the value is `coefficient * 10 ^ exponent`.
-/
structure Decimal where
  coefficient : Nat
  exponent : Int
  deriving DecidableEq, Repr

namespace Decimal

/--
Where a value exactly half way between two decimals goes.
-/
inductive Tie where
  | up
  | toEven
  deriving DecidableEq, Repr

/--
Compare `n * 10 ^ p` with `x * 2 ^ e`, by whole numbers.
-/
def compareTo (n : Nat) (p : Int) (x : Nat) (e : Int) : Ordering :=
  compare (n * Nat.pow 10 p.toNat * Nat.pow 2 (-e).toNat)
    (x * Nat.pow 2 e.toNat * Nat.pow 10 (-p).toNat)

/--
The greatest `n` with `n * 10 ^ p ≤ x * 2 ^ e`.
-/
def floorOnGrid (x : Nat) (e p : Int) : Nat :=
  x * Nat.pow 2 e.toNat * Nat.pow 10 (-p).toNat /
    (Nat.pow 10 p.toNat * Nat.pow 2 (-e).toNat)

/--
The greatest `p` with `10 ^ p ≤ v`, for a value other than zero. No double is as small as
`10 ^ -400`.
-/
def magnitude (v : Binary) : Int :=
  (Nat.toDigits 10 (floorOnGrid v.mantissa v.exponent (-400))).length - 401

/--
Whether `n * 10 ^ p` reads back as `v`: it lies between the middles to the neighbours of `v`, and a
middle itself reads back as the neighbour with the even mantissa. In units of `2 ^ (exponent - 2)`
the upper middle is two above `v`, and the lower middle two or one below it.
-/
def readsBack (v : Binary) (n : Nat) (p : Int) : Bool :=
  let unit := v.exponent - 2
  let low := 4 * v.mantissa - (if v.narrowBelow then 1 else 2)
  let high := 4 * v.mantissa + 2
  let inclusive := v.mantissa % 2 = 0
  let aboveLow := match compareTo n p low unit with
    | .lt => false
    | .eq => inclusive
    | .gt => true
  let belowHigh := match compareTo n p high unit with
    | .lt => true
    | .eq => inclusive
    | .gt => false
  aboveLow && belowHigh

/--
Of the two neighbours `n * 10 ^ p` and `(n + 1) * 10 ^ p` of `v`, the one that reads back as `v`,
and the nearer one if both do.
-/
def onGrid (tie : Tie) (v : Binary) (p : Int) : Option Decimal :=
  let n := floorOnGrid v.mantissa v.exponent p
  match readsBack v n p, readsBack v (n + 1) p with
  | false, false => none
  | true, false => some ⟨n, p⟩
  | false, true => some ⟨n + 1, p⟩
  | true, true =>
    match compareTo (2 * n + 1) p (2 * v.mantissa) v.exponent with
    | .lt => some ⟨n + 1, p⟩
    | .gt => some ⟨n, p⟩
    | .eq =>
      match tie with
      | .up => some ⟨n + 1, p⟩
      | .toEven => some ⟨if n % 2 = 0 then n else n + 1, p⟩

/--
Move the zeros at the end of the coefficient into the exponent.
-/
def trim (coefficient : Nat) (exponent : Int) : Decimal :=
  if 0 < coefficient ∧ coefficient % 10 = 0 then
    trim (coefficient / 10) (exponent + 1)
  else
    ⟨coefficient, exponent⟩
termination_by coefficient
decreasing_by omega

/--
The nearest of the shortest decimals that read back as `v`. Seventeen digits are always enough.
-/
def shortest (tie : Tie) (v : Binary) : Decimal :=
  if v.mantissa = 0 then
    ⟨0, 0⟩
  else
    let top := magnitude v
    let grids := (List.range 17).map fun (digits : Nat) => top - digits
    match grids.findSome? (onGrid tie v) with
    | some d => trim d.coefficient d.exponent
    | none => ⟨0, 0⟩

end Decimal

end GramIndex
