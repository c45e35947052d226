import GramIndex.Pattern.Outline

/-!
This module contains the compilation of patterns to plans. Only the literals of a pattern and how
they are combined are kept. What a compiler cannot express says nothing, which costs selectivity but
loses no match, and no pattern is an error.
-/

namespace GramIndex

/--
Which spans of a pattern are literals.
-/
structure Compiler where
  /-- Bytes that keep a span from being a literal unless they are escaped. -/
  metachars : Gram
  /-- Bytes that stand for a class or an assertion when they are escaped. -/
  classEscapes : Gram
  deriving DecidableEq, Repr

namespace Compiler

open Pattern (byte isDigit isLetter)

/--
The bytes that have a meaning of their own in patterns.
-/
def defaultMetachars : Gram :=
  "\x7b[^$.*+?|()]\x7d".toList.map byte

def alphanumerics : Gram :=
  ((List.range 128).map UInt8.ofNat).filter fun b => isDigit b || isLetter b

instance : Inhabited Compiler := ⟨defaultMetachars, alphanumerics⟩

/--
Whether a span has no bare metacharacter and no escape but of bytes that then stand for themselves.
-/
def isPlainLiteral (c : Compiler) : Gram → Bool
  | [] => true
  | [b] => b ≠ byte '\\' && !c.metachars.contains b
  | b :: next :: rest =>
    if b = byte '\\' then
      !c.classEscapes.contains next && c.isPlainLiteral rest
    else
      !c.metachars.contains b && c.isPlainLiteral (next :: rest)

/--
Drop the backslashes that escape another byte.
-/
def unescape : Gram → Gram
  | [] => []
  | [b] => [b]
  | b :: next :: rest =>
    if b = byte '\\' then next :: unescape rest else b :: unescape (next :: rest)

/--
The plan of a span: its literal if it is one, and nothing otherwise.
-/
def leaf (c : Compiler) (span : Gram) : Plan Gram :=
  if c.isPlainLiteral span then .literal (unescape span) else .null

/--
The plan of the bytes of a pattern. Flags set anywhere but at the head of a group change what later
literals match, so a pattern with such flags says nothing.
-/
def compileBytes (c : Compiler) (bytes : Gram) : Plan Gram :=
  if Pattern.hasInlineFlags bytes then .null else (Pattern.outline bytes).expand c.leaf

/--
The plan of a pattern. Null nodes are left where they are.
-/
def compile (c : Compiler) (pattern : String) : Plan Gram :=
  c.compileBytes (textBytes pattern)

end Compiler

end GramIndex
