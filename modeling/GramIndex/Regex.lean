import GramIndex.Regex.CharSet

/-!
This module contains regular expressions and the places of a text that they match.
-/

namespace GramIndex

/--
A condition on a place between two characters.
-/
inductive Regex.Look where
  | textStart
  | textEnd
  | lineStart
  | lineEnd
  | wordBoundary
  | noWordBoundary
  | wordStart
  | wordEnd
  deriving DecidableEq, Repr

inductive Regex where
  | empty
  /-- One character of a set. -/
  | one (ignoreCase : Bool) (set : Regex.CharSet)
  | look (condition : Regex.Look)
  | seq (r s : Regex)
  | alt (r s : Regex)
  /--
  An expression `least` times in a row, and then up to `extra` times more, or any number of times.
  A lazy repetition prefers to stop early, which does not change what is matched.
  -/
  | repeated (r : Regex) (least : Nat) (extra : Option Nat) (isLazy : Bool)
  /-- A group, whose match can be asked for on its own if it captures. -/
  | group (captures : Bool) (r : Regex)
  deriving DecidableEq, Repr

namespace Regex

/--
Whether the characters before and after a place, where there are any, satisfy a condition.
-/
def Look.holds (condition : Look) (before after : Option Char) : Bool :=
  let wordBefore := before.any isWordChar
  let wordAfter := after.any isWordChar
  match condition with
  | .textStart => before.isNone
  | .textEnd => after.isNone
  | .lineStart => before.isNone || before = some '\n'
  | .lineEnd => after.isNone || after = some '\n'
  | .wordBoundary => wordBefore != wordAfter
  | .noWordBoundary => wordBefore == wordAfter
  | .wordStart => !wordBefore && wordAfter
  | .wordEnd => wordBefore && !wordAfter

def before (text : List Char) (i : Nat) : Option Char :=
  if i = 0 then none else text[i - 1]?

/--
A relation between places `n` times in a row.
-/
def Times (R : Nat → Nat → Prop) : Nat → Nat → Nat → Prop
  | 0, i, j => i = j
  | n + 1, i, j => ∃ k, R i k ∧ Times R n k j

/--
A regular expression matches the text from place `i` up to place `j`.
-/
def Spans (text : List Char) : Regex → Nat → Nat → Prop
  | .empty, i, j => i = j ∧ i ≤ text.length
  | .one ignoreCase set, i, j => j = i + 1 ∧ ∃ c, text[i]? = some c ∧ set.mem ignoreCase c
  | .look condition, i, j => i = j ∧ i ≤ text.length ∧ condition.holds (before text i) text[i]?
  | .seq r s, i, j => ∃ k, r.Spans text i k ∧ s.Spans text k j
  | .alt r s, i, j => r.Spans text i j ∨ s.Spans text i j
  | .repeated r least extra _, i, j =>
    i ≤ text.length ∧ ∃ n, least ≤ n ∧ (∀ m, extra = some m → n ≤ least + m) ∧
      Times (r.Spans text) n i j
  | .group _ r, i, j => r.Spans text i j

def Matches (r : Regex) (text : List Char) : Prop :=
  ∃ i j, r.Spans text i j

/--
Whether all that the expression can match is the empty text.
-/
def onlyEmpty : Regex → Bool
  | .empty => true
  | .one .. => false
  | .look _ => true
  | .seq r s => r.onlyEmpty && s.onlyEmpty
  | .alt r s => r.onlyEmpty && s.onlyEmpty
  | .repeated r least extra _ => r.onlyEmpty || least = 0 && extra = some 0
  | .group _ r => r.onlyEmpty

/--
Repeat an expression at least `least` times, and at most `most` times if there is a bound. Never and
exactly once are no repetitions, and to repeat the empty text more than once adds nothing.
-/
def replicate (r : Regex) (least : Nat) (most : Option Nat) (isLazy : Bool) : Regex :=
  let (least, extra) :=
    if r.onlyEmpty then
      (min least 1, some (min (most.getD 1) 1 - min least 1))
    else
      (least, most.map (· - least))
  if extra = some 0 && least = 0 then .empty
  else if extra = some 0 && least = 1 then r
  else .repeated r least extra isLazy

end Regex

end GramIndex
