/-!
This module contains tables of characters as ranges of code points, and the blanks of Unicode.
-/

namespace GramIndex.Unicode

/--
The first and the last code point of each range. The ranges are in ascending order.
-/
abbrev Ranges := List (Nat × Nat)

def Ranges.contains (ranges : Ranges) (c : Char) : Bool :=
  match ranges with
  | [] => false
  | (first, last) :: rest => first ≤ c.toNat && (c.toNat ≤ last || contains rest c)

/--
The property White_Space.
-/
def blank : Ranges :=
  [(0x09, 0x0D), (0x20, 0x20), (0x85, 0x85), (0xA0, 0xA0), (0x1680, 0x1680), (0x2000, 0x200A),
   (0x2028, 0x2029), (0x202F, 0x202F), (0x205F, 0x205F), (0x3000, 0x3000)]

def isBlank (c : Char) : Bool :=
  blank.contains c

end GramIndex.Unicode
