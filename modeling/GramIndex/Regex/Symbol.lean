import GramIndex.Regex

/-!
This module contains the symbols of patterns, single characters and escapes, and what escapes stand
for.
-/

namespace GramIndex.Regex

/--
A character of a pattern, with a backslash before it or without.
-/
inductive Symbol where
  | plain (c : Char)
  | escaped (c : Char)
  deriving DecidableEq, Repr

/--
What an escape stands for.
-/
inductive Escape where
  | char (c : Char)
  | set (s : CharSet)
  | look (condition : Look)
  deriving DecidableEq, Repr

namespace Symbol

/--
Cut a pattern into symbols. A backslash at the end belongs to nothing.
-/
def ofChars? : List Char → Option (List Symbol)
  | [] => some []
  | ['\\'] => none
  | '\\' :: c :: rest => (ofChars? rest).map (.escaped c :: ·)
  | c :: rest => (ofChars? rest).map (.plain c :: ·)

def chars : Symbol → List Char
  | .plain c => [c]
  | .escaped c => ['\\', c]

end Symbol

namespace Escape

/--
What a backslash and a character stand for. ASCII characters other than letters and digits stand for
themselves, the angle brackets excepted. Other letters, digits and all other characters are kept
for extensions. Characters by number (`\x`, `\u`, `\U`), classes by property (`\p`, `\P`) and
conditions with a name (`\b{start}`) are not read.
-/
def ofChar? (c : Char) : Option Escape :=
  match c with
  | 'd' => some (.set (.named .digit))
  | 'D' => some (.set (.compl (.named .digit)))
  | 'w' => some (.set (.named .word))
  | 'W' => some (.set (.compl (.named .word)))
  | 's' => some (.set (.named .blank))
  | 'S' => some (.set (.compl (.named .blank)))
  | 'a' => some (.char '\x07')
  | 'f' => some (.char '\x0c')
  | 't' => some (.char '\t')
  | 'n' => some (.char '\n')
  | 'r' => some (.char '\r')
  | 'v' => some (.char '\x0b')
  | 'A' => some (.look .textStart)
  | 'z' => some (.look .textEnd)
  | 'b' => some (.look .wordBoundary)
  | 'B' => some (.look .noWordBoundary)
  | '<' => some (.look .wordStart)
  | '>' => some (.look .wordEnd)
  | _ => if c.toNat < 128 && !c.isAlphanum then some (.char c) else none

end Escape

end GramIndex.Regex
