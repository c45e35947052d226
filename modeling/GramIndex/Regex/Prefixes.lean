import GramIndex.Regex.Reduced

/-!
This module contains the literal prefixes of what a regular expression matches. When they are few
and are all that it matches, its matches are found by looking for the prefixes alone.
-/

namespace GramIndex.Regex

/--
Bytes that a match starts with, and whether it is nothing but them.
-/
structure Prefix where
  bytes : Gram
  exact : Bool
  deriving DecidableEq, Repr

/--
Prefixes of which each match has one, in the order in which they are preferred. Without a list there
are too many.
-/
abbrev Prefixes := Option (List Prefix)

namespace Prefixes

def maxCount : Nat := 250

def maxLength : Nat := 100

/--
The greatest number of characters of a set that are listed.
-/
def maxClass : Nat := 10

/--
The greatest number of repetitions that are followed.
-/
def maxRepeats : Nat := 10

def only (bytes : Gram) : Prefixes :=
  some [⟨bytes, true⟩]

def inexact (ps : Prefixes) : Prefixes :=
  ps.map fun ps => ps.map fun p => { p with exact := false }

/--
Whether nothing can be added at the end of a prefix.
-/
def isDone (ps : Prefixes) : Bool :=
  ps.all fun ps => ps.all fun p => !p.exact

/--
Whether nothing is known of some match.
-/
def hasEmpty (ps : Prefixes) : Bool :=
  ps.any fun ps => ps.any fun p => p.bytes.isEmpty

def cut (length : Nat) (ps : List Prefix) : List Prefix :=
  ps.map fun p => if length < p.bytes.length then ⟨p.bytes.take length, false⟩ else p

/--
Keep one of each run of equal prefixes. It is exact if all of them are.
-/
def dropRepeats : List Prefix → List Prefix
  | [] => []
  | p :: ps =>
    match dropRepeats ps with
    | [] => [p]
    | q :: qs => if p.bytes = q.bytes then ⟨p.bytes, p.exact && q.exact⟩ :: qs else p :: q :: qs

/--
Put prefixes of what follows at the end of those that are exact.
-/
def cross (ps qs : Prefixes) : Prefixes :=
  match ps, qs with
  | none, _ => none
  | some ps, some qs =>
    if ps.length * qs.length ≤ maxCount then
      some <| cut maxLength <| dropRepeats <| ps.flatMap fun p =>
        if p.exact then qs.map fun q => ⟨p.bytes ++ q.bytes, q.exact⟩ else [p]
    else
      stop ps
  | some ps, none => stop ps
where
  /-- What follows can be anything. -/
  stop (ps : List Prefix) : Prefixes :=
    if hasEmpty (some ps) then none else inexact (some ps)

/--
The prefixes of two alternatives. If they are too many, short ones are tried.
-/
def union (ps qs : Prefixes) : Prefixes :=
  match ps, qs with
  | some ps, some qs =>
    if ps.length + qs.length ≤ maxCount then
      some (dropRepeats (ps ++ qs))
    else
      let ps := dropRepeats (cut 4 ps)
      let qs := dropRepeats (cut 4 qs)
      if ps.length + qs.length ≤ maxCount then some (dropRepeats (ps ++ qs)) else none
  | _, _ => none

/--
Prefixes that follow each other so many times.
-/
def power (ps : Prefixes) : Nat → Prefixes
  | 0 => .only []
  | n + 1 =>
    let before := ps.power n
    if before.isDone then before else before.cross ps

def ofSwitches (s : Switches) : Prefixes :=
  if s.size ≤ maxClass then some (s.chars.map fun c => ⟨utf8 [c], true⟩) else none

/--
Drop each prefix that starts with one that is preferred to it.
-/
def minimize (ps : List Prefix) : List Prefix :=
  go [] ps
where
  go (kept : List Prefix) : List Prefix → List Prefix
    | [] => kept.reverse
    | p :: ps =>
      if kept.any fun q => q.bytes.isPrefixOf p.bytes then go kept ps else go (p :: kept) ps

/--
What all prefixes start with.
-/
def common : List Prefix → Gram
  | [] => []
  | p :: ps => ps.foldl (fun bytes q => shared bytes q.bytes) p.bytes
where
  shared : Gram → Gram → Gram
    | a :: as, b :: bs => if a = b then a :: shared as bs else []
    | _, _ => []

/--
Bytes that texts have many of. All bytes of other characters than those of ASCII count as such.
-/
def isFrequent (b : UInt8) : Bool :=
  0x80 ≤ b || (textBytes " \n\r(),-./0129:_abcdefghilmnoprstuvxy|").contains b

/--
Shorten lists that are too long to look for all their prefixes at once: keep so many bytes of each
prefix, if there are more prefixes than that.
-/
def shorten : List (Nat × Nat) → List Prefix → List Prefix
  | [], ps => ps
  | (length, count) :: steps, ps =>
    if ps.length ≤ count then ps else shorten steps (minimize (cut length ps))

/--
Choose prefixes that are quick to look for, which may be shorter than those given. One that is
common to all is preferred if it is long, or short but rare.
-/
def choose (ps : List Prefix) : List Prefix :=
  let least := minimize ps
  let start := common least
  if 1 < ps.length && 1 ≤ start.length && start.length ≤ 3 && !start.head?.any isFrequent then
    dropRepeats (cut 1 least)
  else
    let few := least.all Prefix.exact && least.length ≤ 16
    let least :=
      if 4 < start.length || 1 < start.length && !few then dropRepeats (cut start.length least)
      else least
    let short := shorten [(5, 10), (4, 10), (3, 64), (2, 64), (1, 10)] least
    if least.all Prefix.exact && (short.any (fun p => p.bytes.length ≤ 2) || 64 < short.length) then
      least
    else
      short

end Prefixes

namespace Reduced

mutual

def prefixes : Reduced → Prefixes
  | .empty => .only []
  | .literal cs => some (Prefixes.cut Prefixes.maxLength [⟨utf8 cs, true⟩])
  | .set s => .ofSwitches s
  | .look _ => .only []
  | .repeated r 0 extra isLazy =>
    let once := if extra = some 1 then r.prefixes else r.prefixes.inexact
    if isLazy then .union (.only []) once else once.union (.only [])
  | .repeated r (least + 1) extra _ =>
    let often := r.prefixes.power (min (least + 1) Prefixes.maxRepeats)
    if extra = some 0 && least < Prefixes.maxRepeats then often else often.inexact
  | .capture r => r.prefixes
  | .seq rs => seqPrefixes (.only []) rs
  | .alt rs => altPrefixes (some []) rs

/--
Put the prefixes of a sequence at the end of the prefixes before it.
-/
def seqPrefixes (before : Prefixes) : List Reduced → Prefixes
  | [] => before
  | r :: rs => if before.isDone then before else seqPrefixes (before.cross r.prefixes) rs

def altPrefixes (others : Prefixes) : List Reduced → Prefixes
  | [] => others
  | r :: rs => if others.isNone then none else altPrefixes (others.union r.prefixes) rs

end

/--
The number of alternatives from which on literals are looked for all at once, however many they are.
-/
def manyLiterals : Nat := 3000

/--
Whether the expression is a choice between many literals.
-/
def isDictionary : Reduced → Bool
  | .alt rs => manyLiterals ≤ rs.length && rs.all isLiteral
  | _ => false

/--
Whether matches are found by looking for byte strings, since these are all that is matched.
-/
def isSearchable (r : Reduced) : Bool :=
  !r.hasParts && (r.isDictionary ||
    match r.prefixes with
    | none => false
    | some ps =>
      !ps.isEmpty && !Prefixes.hasEmpty (some ps) && (Prefixes.choose ps).all Prefix.exact)

end Reduced

end GramIndex.Regex
