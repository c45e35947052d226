import GramIndex.Unicode.Word

/-!
This module contains sets of characters as regular expressions describe them, and which characters
they have with and without regard to case.
-/

namespace GramIndex.Regex

inductive CharClass where
  | digit
  | blank
  | word
  deriving DecidableEq, Repr

def CharClass.mem : CharClass → Char → Bool
  | .digit, c => Unicode.decimal.contains c
  | .blank, c => Unicode.isBlank c
  | .word, c => Unicode.isWord c

/--
The other cases of a character. Case is that of the ASCII letters, to which the sign for kelvin and
the long s belong as cases of `k` and `s`.
-/
def otherCases (c : Char) : List Char :=
  match c with
  | 'k' => ['K', '\u212a']
  | 'K' => ['k', '\u212a']
  | '\u212a' => ['k', 'K']
  | 's' => ['S', '\u017f']
  | 'S' => ['s', '\u017f']
  | '\u017f' => ['s', 'S']
  | _ => if c.isLower then [c.toUpper] else if c.isUpper then [c.toLower] else []

inductive CharSet where
  | nothing
  /-- The characters of a range, and where case does not count also their other cases. -/
  | range (first last : Char)
  | named (kind : CharClass)
  | union (a b : CharSet)
  | inter (a b : CharSet)
  | diff (a b : CharSet)
  | symmDiff (a b : CharSet)
  | compl (a : CharSet)
  deriving DecidableEq, Repr

namespace CharSet

/--
Whether a character is in the set. Where case does not count, a set has all cases of a character or
none: named classes do, and the operations keep it.
-/
def mem (ignoreCase : Bool) : CharSet → Char → Bool
  | .nothing, _ => false
  | .range first last, c =>
    let inRange (c : Char) := first ≤ c && c ≤ last
    inRange c || ignoreCase && (otherCases c).any inRange
  | .named kind, c => kind.mem c
  | .union a b, c => a.mem ignoreCase c || b.mem ignoreCase c
  | .inter a b, c => a.mem ignoreCase c && b.mem ignoreCase c
  | .diff a b, c => a.mem ignoreCase c && !b.mem ignoreCase c
  | .symmDiff a b, c => a.mem ignoreCase c != b.mem ignoreCase c
  | .compl a, c => !a.mem ignoreCase c

def single (c : Char) : CharSet :=
  .range c c

end CharSet

def isWordChar (c : Char) : Bool :=
  Unicode.isWord c

end GramIndex.Regex
