import GramIndex.Regex.Marked
import GramIndex.Regex.Parser
import GramIndex.Regex.Prefixes
import GramIndex.Regex.Program
import GramIndex.Text.Quoted

/-!
This module contains matchers, which decide whether a record really matches a pattern, and the
matcher for regular expressions. The index only narrows the records that a matcher is asked about.
-/

namespace GramIndex

/--
A pattern that a matcher does not accept, and why.
-/
structure PatternError where
  pattern : String
  reason : String
  deriving DecidableEq, Repr

def PatternError.message (e : PatternError) : String :=
  "invalid pattern " ++ Text.quote e.pattern.toList ++ ": " ++ e.reason

/--
A way to test texts against patterns. A pattern is compiled once and then tested on many texts.
-/
structure Matcher (Compiled : Type) where
  compile : String → Except PatternError Compiled
  /-- Whether a compiled pattern matches some part of a text. -/
  accepts : Compiled → String → Bool

/--
Whether a character has a meaning of its own in patterns.
-/
def isMetacharacter (c : Char) : Bool :=
  "\x7b[^$.*+?|()]\x7d\\".toList.contains c

/--
Whether a pattern is a literal, every character of which stands for itself.
-/
def isLiteralPattern (pattern : String) : Bool :=
  !pattern.toList.any isMetacharacter

/--
An engine for regular expressions.
-/
structure Engine (Expression : Type) where
  /--
  The expression of a pattern, or why there is none. The program for it must not be larger than a
  limit, in bytes.
  -/
  build : Nat → String → Except String Expression
  /-- Whether an expression matches some part of a text. -/
  isMatch : Expression → String → Bool

/--
A pattern in the form in which it is searched for.
-/
inductive SearchPattern (Expression : Type) where
  /-- The bytes of a pattern without metacharacters. -/
  | literal (bytes : Gram)
  | regex (r : Expression)
  deriving DecidableEq, Repr

namespace Engine

variable {Expression : Type}

/--
Compile a pattern. Literal patterns are searched for as bytes, and an engine builds the others.
-/
def compile (e : Engine Expression) (sizeLimit : Nat) (pattern : String) :
    Except PatternError (SearchPattern Expression) :=
  if isLiteralPattern pattern then
    .ok (.literal (textBytes pattern))
  else
    match e.build sizeLimit pattern with
    | .error reason => .error ⟨pattern, reason⟩
    | .ok r => .ok (.regex r)

def accepts (e : Engine Expression) : SearchPattern Expression → String → Bool
  | .literal bytes, text => bytes.occursIn (textBytes text)
  | .regex r, text => e.isMatch r text

end Engine

namespace Regex

/--
Whether the programs for an expression are too large. An expression that byte strings can be looked
for instead of needs no program.
-/
def isTooLarge (sizeLimit : Nat) (r : Regex) : Bool :=
  !r.reduced.isSearchable && !r.reduced.fits sizeLimit

/--
The engine that reads the patterns of `ofPattern?`.
-/
def engine : Engine Regex where
  build sizeLimit pattern :=
    match ofPattern? pattern.toList with
    | none => .error "malformed"
    | some r => if r.isTooLarge sizeLimit then .error "program too large" else .ok r
  isMatch r text := r.isMatch text.toList

end Regex

abbrev CompiledPattern := SearchPattern Regex

/--
The matcher for regular expressions.
-/
structure RegexMatcher where
  /-- An upper bound on the size of the program for a regular expression, in bytes. -/
  sizeLimit : Nat := 10 * 1024 * 1024

namespace RegexMatcher

def compile (m : RegexMatcher) (pattern : String) : Except PatternError CompiledPattern :=
  Regex.engine.compile m.sizeLimit pattern

def accepts : CompiledPattern → String → Bool :=
  Regex.engine.accepts

def toMatcher (m : RegexMatcher) : Matcher CompiledPattern :=
  ⟨m.compile, accepts⟩

end RegexMatcher

end GramIndex
