import GramIndex.Regex

/-!
This module contains the search for matches. A regular expression is carried along the text, with a
mark at each of its characters that the character just read can stand for in a partial match. Only
the parts with marks are unrolled and looked at, and one character of the text takes one walk over
them, however repetitions are nested.
-/

namespace GramIndex.Regex

/--
Whether the empty text is matched at a place, with the characters before and after it.
-/
def passes (before after : Option Char) : Regex → Bool
  | .empty => true
  | .one .. => false
  | .look condition => condition.holds before after
  | .seq r s => r.passes before after && s.passes before after
  | .alt r s => r.passes before after || s.passes before after
  | .repeated r least _ _ => least = 0 || r.passes before after
  | .group _ r => r.passes before after

/--
Whether the empty text is matched at every place.
-/
def alwaysPasses : Regex → Bool
  | .empty => true
  | .one .. => false
  | .look _ => false
  | .seq r s => r.alwaysPasses && s.alwaysPasses
  | .alt r s => r.alwaysPasses || s.alwaysPasses
  | .repeated r least _ _ => least = 0 || r.alwaysPasses
  | .group _ r => r.alwaysPasses

def times (r : Regex) (n : Nat) : Regex :=
  if n = 1 then r else .repeated r n (some 0) false

def upTo (r : Regex) (n : Nat) : Regex :=
  if n = 0 then .empty else .repeated r 0 (some n) false

def loop (r : Regex) : Regex :=
  .repeated r 1 none false

/--
A partly unrolled expression with its marks.
-/
inductive Marked where
  | plain (r : Regex)
  /-- A character with a mark. -/
  | read (ignoreCase : Bool) (set : CharSet)
  | seq (r s : Marked)
  | alt (r s : Marked)
  /-- An expression once or more. -/
  | loop (r : Marked)
  | optional (r : Marked)
  /-- An expression at most `n` times, in two halves. Only all of the first leads to the second. -/
  | upTo (r : Regex) (n : Nat) (first second : Marked)

namespace Marked

def isPlain : Marked → Bool
  | .plain _ => true
  | _ => false

def mkSeq : Marked → Marked → Marked
  | .plain .empty, s => s
  | r, .plain .empty => r
  | .plain r, .plain s => .plain (.seq r s)
  | r, s => .seq r s

def mkAlt : Marked → Marked → Marked
  | .plain r, .plain s => .plain (.alt r s)
  | r, s => .alt r s

def mkLoop : Marked → Marked
  | .plain r => .plain r.loop
  | r => .loop r

def mkOptional : Marked → Marked
  | .plain r => .plain (r.upTo 1)
  | r => .optional r

def mkUpTo (r : Regex) (n : Nat) : Marked → Marked → Marked
  | .plain _, .plain _ => .plain (r.upTo n)
  | first, second => .upTo r n first second

/--
An expression `n` times, if `first` is what becomes of it where it is entered. `again` says whether
it passes there, so that the next ones are entered too. The halves are equally long, so that the
result is not deep.
-/
def startTimes (r : Regex) (first : Marked) (again : Bool) (n : Nat) : Marked :=
  if n = 0 then
    .plain .empty
  else if n = 1 then
    first
  else
    .seq (startTimes r first again (n / 2))
      (if again then startTimes r first again (n - n / 2) else .plain (r.times (n - n / 2)))
termination_by n

/--
An expression at most `n` times, if `first` is what becomes of it where it is entered.
-/
def startUpTo (r : Regex) (first : Marked) (n : Nat) : Marked :=
  if n = 0 then
    .plain .empty
  else if n = 1 then
    .optional first
  else
    .upTo r n (startUpTo r first (n / 2)) (.plain (r.upTo (n - n / 2)))
termination_by n

/--
The marks after the next character, if matches start at the place between two characters.
-/
def start (before after : Option Char) : Regex → Marked
  | .empty => .plain .empty
  | .one ignoreCase set =>
    if after.any (set.mem ignoreCase) then .read ignoreCase set else .plain (.one ignoreCase set)
  | .look condition => .plain (.look condition)
  | .seq r s =>
    mkSeq (start before after r) (if r.passes before after then start before after s else .plain s)
  | .alt r s => mkAlt (start before after r) (start before after s)
  | .repeated r least extra isLazy =>
    let first := start before after r
    let again := r.passes before after
    if first.isPlain then
      .plain (.repeated r least extra isLazy)
    else
      match if r.alwaysPasses then (0, extra.map (least + ·)) else (least, extra) with
      | (0, none) => if r.alwaysPasses then .loop first else .optional (.loop first)
      | (0, some extra) => startUpTo r first extra
      | (least + 1, none) =>
        mkSeq (startTimes r first again least)
          (if least = 0 || again then .loop first else .plain r.loop)
      | (least + 1, some extra) =>
        mkSeq (startTimes r first again (least + 1))
          (if again then startUpTo r first extra else .plain (r.upTo extra))
  | .group _ r => start before after r

/--
What a marked expression does at a place between two characters.
-/
structure Step where
  /-- Whether a match that starts at the place can end there too. -/
  passes : Bool
  /-- Whether a partial match that has been marked can end at the place. -/
  ends : Bool
  /-- Whether one can end that has repeated an expression as often as it may be. -/
  full : Bool
  /-- The marks after the next character, given whether matches may start at the place. -/
  next : Bool → Marked

/--
Walk over an expression at a place, with the characters before and after it. An item of a sequence
is entered where the items before it can end, and a repeated expression also where it ends itself.
-/
def step (before after : Option Char) : Marked → Step
  | .plain r =>
    ⟨r.passes before after, false, false,
      fun enter => if enter then start before after r else .plain r⟩
  | .read ignoreCase set =>
    ⟨false, true, true, fun enter =>
      if enter then start before after (.one ignoreCase set) else .plain (.one ignoreCase set)⟩
  | .seq r s =>
    let r := r.step before after
    let s := s.step before after
    let ends := r.ends && s.passes || s.ends
    ⟨r.passes && s.passes, ends, ends,
      fun enter => mkSeq (r.next enter) (s.next (r.ends || enter && r.passes))⟩
  | .alt r s =>
    let r := r.step before after
    let s := s.step before after
    let ends := r.ends || s.ends
    ⟨r.passes || s.passes, ends, ends, fun enter => mkAlt (r.next enter) (s.next enter)⟩
  | .loop r =>
    let r := r.step before after
    ⟨r.passes, r.ends, r.ends, fun enter => mkLoop (r.next (enter || r.ends))⟩
  | .optional r =>
    let r := r.step before after
    ⟨true, r.ends, r.ends, fun enter => mkOptional (r.next enter)⟩
  | .upTo r n first second =>
    let first := first.step before after
    let second := second.step before after
    ⟨true, first.ends || second.ends, second.full,
      fun enter => mkUpTo r n (first.next enter) (second.next first.full)⟩

/--
Whether a match ends somewhere in the rest of a text, if matches may start anywhere in it.
-/
def search (before : Option Char) (text : List Char) (r : Marked) : Bool :=
  let here := r.step before text.head?
  here.passes || here.ends ||
    match text with
    | [] => false
    | c :: rest => search (some c) rest (here.next true)

end Marked

/--
Whether a regular expression matches somewhere in the text.
-/
def isMatch (r : Regex) (text : List Char) : Bool :=
  Marked.search none text (.plain r)

end GramIndex.Regex
