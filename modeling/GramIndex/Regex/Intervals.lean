import GramIndex.Regex.CharSet

/-!
This module contains the members of character sets as intervals of code points, for what depends on
how many there are.
-/

namespace GramIndex.Regex

/--
A set of numbers as the ascending list of those at which it starts or stops, in turn.
-/
abbrev Switches := List Nat

namespace Switches

/--
The number after the last code point. No set switches there.
-/
def bound : Nat := 0x110000

def range (first last : Nat) : Switches :=
  if last + 1 < bound then [first, last + 1] else [first]

/--
Ranges that meet become one.
-/
def ofRanges : Unicode.Ranges → Switches
  | [] => []
  | (first, last) :: rest =>
    match ofRanges rest with
    | next :: rest => if next = last + 1 then first :: rest else first :: (last + 1) :: next :: rest
    | [] => [first, last + 1]

/--
A switch at `n`, unless nothing changes there.
-/
def cons (n : Nat) (before after : Bool) (rest : Switches) : Switches :=
  if before = after then rest else n :: rest

/--
Combine two sets. The operation must not hold where neither set does.
-/
def combine (op : Bool → Bool → Bool) (a b : Switches) : Switches :=
  go false false a b
where
  /-- `p` and `q` say whether the sets have the numbers just before those that follow. -/
  go (p q : Bool) : Switches → Switches → Switches
    | m :: a, n :: b =>
      if m < n then
        cons m (op p q) (op (!p) q) (go (!p) q a (n :: b))
      else if n < m then
        cons n (op p q) (op p !q) (go p (!q) (m :: a) b)
      else
        cons m (op p q) (op (!p) !q) (go (!p) (!q) a b)
    | m :: a, [] => cons m (op p q) (op (!p) q) (go (!p) q a [])
    | [], n :: b => cons n (op p q) (op p !q) (go p (!q) [] b)
    | [], [] => []
  termination_by a b => a.length + b.length

def compl : Switches → Switches
  | 0 :: rest => rest
  | rest => 0 :: rest

/--
The intervals, each with its first code point and the one after its last.
-/
def intervals : Switches → List (Nat × Nat)
  | [] => []
  | [first] => [(first, bound)]
  | first :: stop :: rest => (first, stop) :: intervals rest

def size (s : Switches) : Nat :=
  s.intervals.foldl (fun n (first, stop) => n + (stop - first)) 0

def chars (s : Switches) : List Char :=
  s.intervals.flatMap fun (first, stop) => (List.range' first (stop - first)).map Char.ofNat

end Switches

/--
The characters that have other cases.
-/
def casedChars : List Char :=
  ((List.range' 0x41 26) ++ (List.range' 0x61 26)).map Char.ofNat ++ ['\u017f', '\u212a']

def CharClass.switches : CharClass → Switches
  | .digit => .ofRanges Unicode.decimal
  | .blank => .ofRanges Unicode.blank
  | .word =>
    .combine or (.ofRanges Unicode.alphabetic)
      (.combine or (.ofRanges Unicode.decimal) (.ofRanges Unicode.wordJoining))

def CharSet.switches (ignoreCase : Bool) : CharSet → Switches
  | .nothing => []
  | .range first last =>
    if first ≤ last then
      let others := casedChars.filter (CharSet.mem ignoreCase (.range first last))
      .combine or (.range first.toNat last.toNat)
        (.ofRanges (others.map fun c => (c.toNat, c.toNat)))
    else
      []
  | .named kind => kind.switches
  | .union a b => .combine or (a.switches ignoreCase) (b.switches ignoreCase)
  | .inter a b => .combine and (a.switches ignoreCase) (b.switches ignoreCase)
  | .diff a b => .combine (fun p q => p && !q) (a.switches ignoreCase) (b.switches ignoreCase)
  | .symmDiff a b => .combine xor (a.switches ignoreCase) (b.switches ignoreCase)
  | .compl a => (a.switches ignoreCase).compl

end GramIndex.Regex
