import GramIndex.Matcher
import GramIndex.Proofs.ClassGrammar
import GramIndex.Proofs.Grammar

/-!
This module contains how engines for regular expressions read patterns, as far as their
documentation says where literals, groups and alternatives stand, and what a match asks of the text
there. What classes, conditions and escapes of letters match is left open, and so is everything for
which a pattern changes flags: with other flags, blanks and comments may stand anywhere in it.
-/

namespace GramIndex.Pattern

open Regex (Symbol Times)
open Regex.Bracket (IsMember Opening)

/--
The points, carets and dollar signs of a pattern.
-/
def signs : List Char := ['.', '^', '$']

/--
The characters that carry structure for the scanners.
-/
def scanned : List Char := ['(', ')', '|', '\\', '[']

/--
The characters that do not stand for themselves outside of classes. Closing brackets and closing
braces do.
-/
def special : List Char := signs ++ scanned ++ ['*', '+', '?', '\x7b']

/--
The letters of flags, and the minus sign before those that are turned off.
-/
def flagChars : List Char := ['i', 'm', 's', 'U', 'u', 'x', 'R', '-']

/--
What matches one character or none, or a class.
-/
inductive Atom where
  | char (c : Char)
  /-- A point, a caret or a dollar sign. -/
  | sign (c : Char)
  /-- A character after a backslash. Some letters have an argument, as in `\x41` and `\p{Greek}`. -/
  | escape (c : Char) (argument : List Char)
  /-- A class from its opening bracket to its closing one. -/
  | bracket (text : List Char)
  deriving DecidableEq, Repr

/--
A quantifier.
-/
structure Mark where
  /-- The quantifier without the question mark that makes it lazy. -/
  sign : List Char
  least : Nat
  isLazy : Bool
  deriving DecidableEq, Repr

/--
How a group begins that keeps the flags as they are.
-/
inductive Head where
  | capture
  | plain
  /-- A name with or without a letter before its angle bracket. -/
  | named (withLetter : Bool) (name : List Char)
  deriving DecidableEq, Repr

/--
How a pattern is read, from some place on up to the end of the innermost group. Where other flags
are in force, the text of the pattern is kept as it is.
-/
inductive Reading where
  | done
  | item (atom : Atom) (marks : List Mark) (rest : Reading)
  /-- The next alternative of the group. -/
  | bar (rest : Reading)
  | group (head : Head) (body : Reading) (marks : List Mark) (rest : Reading)
  /-- A group with flags of its own. -/
  | flagged (flags text : List Char) (marks : List Mark) (rest : Reading)
  /-- Flags for all that is left of the group. -/
  | setFlags (flags text : List Char)
  deriving DecidableEq, Repr

section Chars

def Atom.chars : Atom → List Char
  | .char c => [c]
  | .sign c => [c]
  | .escape c argument => '\\' :: c :: argument
  | .bracket text => text

def Mark.chars (m : Mark) : List Char :=
  m.sign ++ if m.isLazy then ['?'] else []

/--
What follows the opening parenthesis of a group.
-/
def Head.mark : Head → List Char
  | .capture => []
  | .plain => ['?', ':']
  | .named withLetter name =>
    '?' :: (if withLetter then ['P', '<'] else ['<']) ++ name ++ ['>']

/--
The pattern that is read.
-/
def Reading.chars : Reading → List Char
  | .done => []
  | .item atom marks rest => atom.chars ++ marks.flatMap Mark.chars ++ rest.chars
  | .bar rest => '|' :: rest.chars
  | .group head body marks rest =>
    '(' :: head.mark ++ body.chars ++ ')' :: (marks.flatMap Mark.chars ++ rest.chars)
  | .flagged flags text marks rest =>
    '(' :: '?' :: flags ++ ':' :: text ++ ')' :: (marks.flatMap Mark.chars ++ rest.chars)
  | .setFlags flags text => '(' :: '?' :: flags ++ ')' :: text

end Chars

section Fits

/--
A number in decimal digits, with blanks around it.
-/
def IsBound (n : Nat) (cs : List Char) : Prop :=
  ∃ (before behind : List Char) (numeral : Numeral), cs = before ++ numeral.digits ++ behind ∧
    numeral.value = n ∧ ∀ c ∈ before ++ behind, Unicode.isBlank c = true

/--
The bounds of a repetition between braces, of which the first one is `least`.
-/
inductive IsBounds (least : Nat) : List Char → Prop where
  | exactly {cs : List Char} (h : IsBound least cs) : IsBounds least cs
  | atLeast {cs : List Char} (h : IsBound least cs) : IsBounds least (cs ++ [','])
  | between {cs ds : List Char} {most : Nat} (h : IsBound least cs) (hmost : IsBound most ds) :
    IsBounds least (cs ++ ',' :: ds)

/--
What quantifiers look like, without the question mark that makes them lazy.
-/
inductive IsMark : Nat → List Char → Prop where
  | any : IsMark 0 ['*']
  | some : IsMark 1 ['+']
  | optional : IsMark 0 ['?']
  | counted {least : Nat} {cs : List Char} (h : IsBounds least cs) :
    IsMark least ('\x7b' :: cs ++ ['\x7d'])

/--
Quantifiers in a row. A question mark is one of its own only after one that is lazy already.
-/
structure AreMarks (marks : List Mark) : Prop where
  valid : ∀ m ∈ marks, IsMark m.least m.sign
  apart : marks.IsChain fun m next => next.sign = ['?'] → m.isLazy = true

/--
The name of a group. It has only letters, digits and a few other ASCII characters.
-/
def IsName (name : List Char) : Prop :=
  ∀ c ∈ name, c.toNat < 128 → c.isAlphanum = true ∨ c ∈ ['_', '.', '[', ']']

structure AreFlags (flags : List Char) : Prop where
  ne_nil : flags ≠ []
  chars : ∀ c ∈ flags, c ∈ flagChars

def Atom.Fits : Atom → Prop
  | .char c => c ∉ special
  | .sign c => c ∈ signs
  | .escape c argument =>
    c.toNat < 128 ∧ (argument ≠ [] → c.isAlpha = true) ∧ ∀ d ∈ scanned, d ∉ argument
  | .bracket text => text.head? = some '['

def Head.Fits : Head → Prop
  | .named _ name => IsName name
  | _ => True

/--
The parts of a reading look as engines document them.
-/
def Reading.Fits : Reading → Prop
  | .done => True
  | .item atom marks rest => atom.Fits ∧ AreMarks marks ∧ rest.Fits
  | .bar rest => rest.Fits
  | .group head body marks rest => head.Fits ∧ body.Fits ∧ AreMarks marks ∧ rest.Fits
  | .flagged flags _ marks rest => AreFlags flags ∧ AreMarks marks ∧ rest.Fits
  | .setFlags flags _ => AreFlags flags

end Fits

section Allows

/--
Whether a backslash before a character asks for the start or the end of a word.
-/
def isAngle (c : Char) : Bool :=
  c = '<' || c = '>'

/--
The character that an atom stands for. A backslash leaves the meaning of ASCII characters other than
letters, digits and angle brackets.
-/
def Atom.char? : Atom → Option Char
  | .char c => some c
  | .escape c [] => if c.isAlphanum || isAngle c then none else some c
  | _ => none

/--
An atom that stands for a character matches it. Others may match anything.
-/
def Atom.Allows (text : List Char) (atom : Atom) (i j : Nat) : Prop :=
  ∀ c, atom.char? = some c → j = i + 1 ∧ text[i]? = some c

/--
What a relation between places becomes under quantifiers, each of which repeats what is before it.
-/
def Repeated (marks : List Mark) (R : Nat → Nat → Prop) : Nat → Nat → Prop :=
  marks.foldl (fun R m i j => ∃ n, m.least ≤ n ∧ Times R n i j) R

mutual

/--
The first alternative may match the text from place `i` up to place `j`.
-/
def Reading.First (text : List Char) : Reading → Nat → Nat → Prop
  | .done, i, j => i = j
  | .item atom marks rest, i, j => ∃ k, Repeated marks (atom.Allows text) i k ∧ rest.First text k j
  | .bar _, i, j => i = j
  | .group _ body marks rest, i, j =>
    ∃ k, Repeated marks (fun i j => body.First text i j ∨ body.Later text i j) i k ∧
      rest.First text k j
  | .flagged _ _ _ rest, _, j => ∃ k, rest.First text k j
  | .setFlags _ _, _, _ => True

/--
One of the alternatives after the first one may match the text from place `i` up to place `j`.
-/
def Reading.Later (text : List Char) : Reading → Nat → Nat → Prop
  | .done, _, _ => False
  | .item _ _ rest, i, j => rest.Later text i j
  | .bar rest, i, j => rest.First text i j ∨ rest.Later text i j
  | .group _ _ _ rest, i, j => rest.Later text i j
  | .flagged _ _ _ rest, i, j => rest.Later text i j
  | .setFlags _ _, _, _ => True

end

/--
The pattern may match the text from place `i` up to place `j`.
-/
def Reading.Allows (text : List Char) (t : Reading) (i j : Nat) : Prop :=
  t.First text i j ∨ t.Later text i j

end Allows

section InStep

/--
The members of a class in which each opening bracket without a backslash begins another class.
-/
inductive Nests : List Symbol → Prop where
  | nil : Nests []
  | symbol {s : Symbol} {rest : List Symbol} (hs : IsMember s) (h : Nests rest) : Nests (s :: rest)
  | nested {lead inner rest : List Symbol} (hlead : Opening lead (inner.headD (.plain ']')))
    (hinner : Nests inner) (h : Nests rest) :
    Nests (.plain '[' :: lead ++ inner ++ .plain ']' :: rest)

/--
A class of such members. The class from `A` to an opening bracket is none.
-/
inductive IsNested : List Symbol → Prop where
  | mk {lead inner : List Symbol} (hlead : Opening lead (inner.headD (.plain ']')))
    (hinner : Nests inner) : IsNested (.plain '[' :: lead ++ inner ++ [.plain ']'])

/--
Symbols in which each parenthesis without a backslash has its partner, and each opening bracket
begins a class.
-/
inductive Balanced : List Symbol → Prop where
  | nil : Balanced []
  | symbol {s : Symbol} {rest : List Symbol}
    (hs : s ∉ [.plain '(', .plain ')', .plain '\\', .plain '[']) (h : Balanced rest) :
    Balanced (s :: rest)
  | bracket {cls rest : List Symbol} (hcls : IsNested cls) (h : Balanced rest) :
    Balanced (cls ++ rest)
  | group {inner rest : List Symbol} (hinner : Balanced inner) (h : Balanced rest) :
    Balanced (.plain '(' :: inner ++ .plain ')' :: rest)

def Atom.Aligned : Atom → Prop
  | .bracket text => ∃ cls, text = cls.flatMap Symbol.chars ∧ IsNested cls
  | _ => True

def Head.Aligned : Head → Prop
  | .named _ name => ∃ symbols, name = symbols.flatMap Symbol.chars ∧ Balanced symbols
  | _ => True

/--
Brackets and parentheses stand in pairs wherever the scanners cannot tell those of structure from
others: in classes, in names, and in groups with flags of their own.
-/
def Reading.Aligned : Reading → Prop
  | .done => True
  | .item atom _ rest => atom.Aligned ∧ rest.Aligned
  | .bar rest => rest.Aligned
  | .group head body _ rest => head.Aligned ∧ body.Aligned ∧ rest.Aligned
  | .flagged _ text _ rest =>
    (∃ symbols, text = symbols.flatMap Symbol.chars ∧ Balanced symbols) ∧ rest.Aligned
  | .setFlags _ _ => True

/--
Whether compilers take an atom with these quantifiers for a character of a literal.
-/
def isLiteralItem : Atom × List Mark → Bool
  | (.char c, []) => !isMetacharacter c
  | (.escape c [], []) => !c.isAlphanum
  | _ => false

/--
The items between two groups, bars or ends of the pattern, in groups that have to occur. The first
of these goes on from a run of items.
-/
def Reading.leaves : List (Atom × List Mark) → Reading → List (List (Atom × List Mark))
  | run, .done => [run]
  | run, .item atom marks rest => rest.leaves (run ++ [(atom, marks)])
  | run, .bar rest => run :: rest.leaves []
  | run, .group _ body marks rest =>
    run :: (if marks.all fun m => 1 ≤ m.least then body.leaves [] else []) ++ rest.leaves []
  | run, .flagged _ _ _ rest => run :: rest.leaves []
  | run, .setFlags _ _ => [run]

/--
No literal has an escaped angle bracket in it.
-/
def Reading.Spelled (t : Reading) : Prop :=
  ∀ leaf ∈ t.leaves [], leaf.all isLiteralItem = true →
    ∀ item ∈ leaf, item.1 ≠ .escape '<' [] ∧ item.1 ≠ .escape '>' []

/--
The scanners see the structure and the literals of a pattern that the engine sees.
-/
structure Reading.InStep (t : Reading) : Prop where
  aligned : t.Aligned
  spelled : t.Spelled

end InStep

end GramIndex.Pattern

namespace GramIndex

open Pattern (Reading)

/--
What engines document of the patterns that they build and of their matches.
-/
structure Engine.Documented {Expression : Type} (e : Engine Expression)
    (read? : String → Option Reading) : Prop where
  /-- Patterns that are built have been read. -/
  reads {limit : Nat} {pattern : String} {r : Expression} (h : e.build limit pattern = .ok r) :
    (read? pattern).isSome = true
  /-- A reading has the whole pattern in it and keeps to the syntax. -/
  fits {pattern : String} {t : Reading} (h : read? pattern = some t) :
    t.chars = pattern.toList ∧ t.Fits
  /-- A text matches only where the reading allows it. -/
  allows {limit : Nat} {pattern text : String} {r : Expression} {t : Reading}
    (h : e.build limit pattern = .ok r) (ht : read? pattern = some t)
    (hmatch : e.isMatch r text = true) : ∃ i j, t.Allows text.toList i j

end GramIndex
