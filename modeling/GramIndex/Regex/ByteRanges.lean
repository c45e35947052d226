import GramIndex.Gram
import GramIndex.Regex.Intervals

/-!
This module contains intervals of code points as sequences of byte ranges. A sequence stands for the
characters whose UTF-8 bytes are in its ranges, one after the other.
-/

namespace GramIndex.Regex

/--
The first and the last byte of each range.
-/
abbrev ByteRanges := List (Nat × Nat)

namespace ByteRanges

/--
Cut an interval so that in each part all but one of the bytes are either the same or any: at
multiples of `block`, which counts the code points that only differ in the last bytes, and then
`levels` times at multiples of the larger blocks.
-/
def cut : Nat → Nat → Nat × Nat → List (Nat × Nat)
  | 0, _, (first, last) => [(first, last)]
  | levels + 1, block, (first, last) =>
    if first / block = last / block then
      [(first, last)]
    else if first % block = 0 then
      body levels block first last
    else
      let next := (first / block + 1) * block
      (first, next - 1) :: body levels block next last
where
  /-- What starts at a multiple of the block. -/
  body (levels block first last : Nat) : List (Nat × Nat) :=
    if first / block = last / block then
      [(first, last)]
    else if (last + 1) % block = 0 then
      cut levels (64 * block) (first, last)
    else
      let rest := last / block * block
      cut levels (64 * block) (first, rest - 1) ++ [(rest, last)]

/--
The code points whose characters have equally many bytes, in ascending order. There are none for
surrogates.
-/
def lengths : List (Nat × Nat) :=
  [(0x80, 0x7FF), (0x800, 0xD7FF), (0xE000, 0xFFFF), (0x10000, 0x10FFFF)]

def bytes (n : Nat) : List Nat :=
  (utf8 [Char.ofNat n]).map UInt8.toNat

/--
The sequences for the code points from `first` up to `stop`, in ascending order.
-/
def ofInterval (first stop : Nat) : List ByteRanges :=
  (if first < 0x80 then [[(first, min (stop - 1) 0x7F)]] else []) ++
    lengths.flatMap fun (low, high) =>
      let (first, last) := (max first low, min (stop - 1) high)
      if first ≤ last then
        (cut 3 64 (first, last)).map fun (first, last) => (bytes first).zip (bytes last)
      else
        []

end ByteRanges

def Switches.byteRanges (s : Switches) : List ByteRanges :=
  s.intervals.flatMap fun (first, stop) => ByteRanges.ofInterval first stop

def Switches.isAscii (s : Switches) : Bool :=
  s.intervals.all fun (_, stop) => stop ≤ 0x80

end GramIndex.Regex
