import GramIndex.Gram
import GramIndex.Regex
import GramIndex.Regex.Intervals

/-!
This module contains regular expressions in reduced form. Sequences and alternatives are flat lists,
neighbouring characters are one literal, and alternatives between characters are one set. Programs
are built from this form, so their sizes depend on it.
-/

namespace GramIndex.Regex

inductive Reduced where
  | empty
  | literal (cs : List Char)
  | set (s : Switches)
  | look (condition : Look)
  /-- An expression `least` times, and then up to `extra` times more or any number of times. -/
  | repeated (r : Reduced) (least : Nat) (extra : Option Nat) (isLazy : Bool)
  | capture (r : Reduced)
  | seq (rs : List Reduced)
  | alt (rs : List Reduced)

namespace Reduced

/--
A set, or a literal if it has one member only.
-/
def ofSwitches (s : Switches) : Reduced :=
  match s.intervals with
  | [(first, stop)] => if stop = first + 1 then .literal [Char.ofNat first] else .set s
  | _ => .set s

def ofItems : List Reduced → Reduced
  | [] => .empty
  | [r] => r
  | rs => .seq rs

def items : Reduced → List Reduced
  | .empty => []
  | .seq rs => rs
  | r => [r]

def consItem : Reduced → List Reduced → List Reduced
  | .literal cs, .literal ds :: rest => .literal (cs ++ ds) :: rest
  | r, rest => r :: rest

def append (r s : Reduced) : Reduced :=
  ofItems (r.items.foldr consItem s.items)

def alternatives : Reduced → List Reduced
  | .alt rs => rs
  | r => [r]

mutual

/--
Whether two expressions are written alike. Groups that capture are told apart by their places.
-/
def same : Reduced → Reduced → Bool
  | .empty, .empty => true
  | .literal cs, .literal ds => cs = ds
  | .set s, .set t => s = t
  | .look c, .look d => c = d
  | .repeated r least extra isLazy, .repeated r' least' extra' isLazy' =>
    least = least' && extra = extra' && isLazy = isLazy' && r.same r'
  | .seq rs, .seq ss => allSame rs ss
  | .alt rs, .alt ss => allSame rs ss
  | _, _ => false

def allSame : List Reduced → List Reduced → Bool
  | [], [] => true
  | r :: rs, s :: ss => r.same s && allSame rs ss
  | _, _ => false

end

/--
The items that two sequences both start with.
-/
def sharedItems : List Reduced → List Reduced → List Reduced
  | r :: rs, s :: ss => if r.same s then r :: sharedItems rs ss else []
  | _, _ => []

def bytes? : Reduced → Option Gram
  | .literal cs => some (utf8 cs)
  | _ => none

def isLiteral : Reduced → Bool
  | .literal _ => true
  | _ => false

def char? : Reduced → Option Switches
  | .literal [c] => some (.range c.toNat c.toNat)
  | _ => none

def set? : Reduced → Option Switches
  | .set s => some s
  | _ => none

def seq? : Reduced → Option (List Reduced)
  | .seq rs => some rs
  | _ => none

/--
The set of all alternatives, if they are characters or if they are sets.
-/
def mergedSet? (rs : List Reduced) : Option Switches :=
  ((rs.mapM char?).or (rs.mapM set?)).map fun sets => sets.foldl (.combine or) []

/--
One of several expressions. What is to choose between expressions of alternatives is to choose
between all of them.
-/
def either (rs : List Reduced) : Reduced :=
  match rs.flatMap alternatives with
  | [] => .set []
  | [r] => r
  | rs =>
    match mergedSet? rs with
    | some s => ofSwitches s
    | none => .alt rs

/--
One of several expressions. The items that all of them start with come before the choice.
-/
def choice (rs : List Reduced) : Reduced :=
  match either rs with
  | .alt rs =>
    match rs.mapM seq? with
    | some (first :: others) =>
      match others.foldl sharedItems first with
      | [] => .alt rs
      | shared =>
        (ofItems shared).append <|
          either ((first :: others).map fun items => ofItems (items.drop shared.length))
    | _ => .alt rs
  | r => r

/--
The alternatives of an expression in reduced form.
-/
def ofAlternatives : Regex → List Reduced
  | .empty => [.empty]
  | .one ignoreCase s => [ofSwitches (s.switches ignoreCase)]
  | .look condition => [.look condition]
  | .seq r s => [(choice (ofAlternatives r)).append (choice (ofAlternatives s))]
  | .alt r s => ofAlternatives r ++ ofAlternatives s
  | .repeated r least extra isLazy => [.repeated (choice (ofAlternatives r)) least extra isLazy]
  | .group true r => [.capture (choice (ofAlternatives r))]
  | .group false r => [choice (ofAlternatives r)]

mutual

/--
The number of bytes that a match has at least. There is none if a set without members may be needed.
-/
def minLength : Reduced → Option Nat
  | .empty => some 0
  | .literal cs => some (utf8 cs).length
  | .set s => s.intervals.head?.map fun (first, _) => (utf8 [Char.ofNat first]).length
  | .look _ => some 0
  | .repeated r least _ _ => r.minLength.map (least * ·)
  | .capture r => r.minLength
  | .seq rs => sumLength rs
  | .alt rs => leastLength rs

def sumLength : List Reduced → Option Nat
  | [] => some 0
  | r :: rs => return (← r.minLength) + (← sumLength rs)

def leastLength : List Reduced → Option Nat
  | [] => none
  | [r] => r.minLength
  | r :: rs => return min (← r.minLength) (← leastLength rs)

end

mutual

/--
Whether all that the expression can match is the empty text.
-/
def onlyEmpty : Reduced → Bool
  | .empty => true
  | .literal _ => false
  | .set _ => false
  | .look _ => true
  | .repeated r _ _ _ => r.onlyEmpty
  | .capture r => r.onlyEmpty
  | .seq rs => allEmpty rs
  | .alt rs => allEmpty rs

def allEmpty : List Reduced → Bool
  | [] => true
  | r :: rs => r.onlyEmpty && allEmpty rs

end

mutual

/--
Whether every match starts with a condition, or ends with it if the search goes backward.
-/
def demands (condition : Look) (backward : Bool) : Reduced → Bool
  | .look c => c = condition
  | .repeated r least _ _ => 0 < least && r.demands condition backward
  | .capture r => r.demands condition backward
  | .seq rs => if backward then lastDemands condition rs else firstDemands condition rs
  | .alt rs => allDemand condition backward rs
  | _ => false

def firstDemands (condition : Look) : List Reduced → Bool
  | [] => false
  | r :: rs => r.demands condition false || r.onlyEmpty && firstDemands condition rs

def lastDemands (condition : Look) : List Reduced → Bool
  | [] => false
  | r :: rs => lastDemands condition rs || allEmpty rs && r.demands condition true

def allDemand (condition : Look) (backward : Bool) : List Reduced → Bool
  | [] => true
  | r :: rs => r.demands condition backward && allDemand condition backward rs

end

mutual

/--
Whether the expression has groups whose matches can be asked for, or conditions.
-/
def hasParts : Reduced → Bool
  | .empty => false
  | .literal _ => false
  | .set _ => false
  | .look _ => true
  | .repeated r _ _ _ => r.hasParts
  | .capture _ => true
  | .seq rs => anyHasParts rs
  | .alt rs => anyHasParts rs

def anyHasParts : List Reduced → Bool
  | [] => false
  | r :: rs => r.hasParts || anyHasParts rs

end

end Reduced

def reduced (r : Regex) : Reduced :=
  .choice (Reduced.ofAlternatives r)

end GramIndex.Regex
