import GramIndex.Regex.Token

/-!
This module contains the reading of regular expressions from patterns. The reader goes over the
tokens once and keeps the groups that are open on a stack.
-/

namespace GramIndex.Regex

/--
The flags in force at a place of a pattern.
-/
structure Flags where
  ignoreCase : Bool := false
  multiLine : Bool := false
  dotAll : Bool := false
  swapGreed : Bool := false
  deriving DecidableEq, Repr

namespace Flags

def set (flags : Flags) (value : Bool) : Flag → Flags
  | .ignoreCase => { flags with ignoreCase := value }
  | .multiLine => { flags with multiLine := value }
  | .dotAll => { flags with dotAll := value }
  | .swapGreed => { flags with swapGreed := value }

def change (flags : Flags) (c : FlagChange) : Flags :=
  c.off.foldl (·.set false) (c.on.foldl (·.set true) flags)

end Flags

/--
A group, or the whole pattern, that is still open.
-/
structure Level where
  captures : Bool
  flags : Flags
  /-- The alternatives that are complete, last first. -/
  alternatives : List (Nested Regex)
  /-- What the alternative being read has so far, last first. -/
  items : List (Nested Regex)
  repeatable : Bool

namespace Level

def start (captures : Bool) (flags : Flags) : Level :=
  ⟨captures, flags, [], [], false⟩

def push (level : Level) (r : Nested Regex) : Level :=
  { level with items := r :: level.items, repeatable := true }

/--
Change the flags for what follows. The place where it is done matches the empty text.
-/
def setFlags (level : Level) (change : FlagChange) : Level :=
  { level with
    flags := level.flags.change change, items := .leaf .empty :: level.items, repeatable := false }

def sequence (level : Level) : Nested Regex :=
  .join .seq .empty level.items

def bar (level : Level) : Level :=
  { level with
    alternatives := level.sequence :: level.alternatives, items := [], repeatable := false }

def close (level : Level) : Nested Regex :=
  .join .alt .empty (level.sequence :: level.alternatives)

/--
Add a group that is closed to the level around it.
-/
def pushGroup (level inner : Level) : Level :=
  level.push (inner.close.wrap (.group inner.captures))

/--
Repeat the last item.
-/
def quantify? (level : Level) (least : Nat) (most : Option Nat) (isLazy : Bool) : Option Level :=
  match level.repeatable, level.items with
  | true, r :: items =>
    some { level with
      items := r.wrap (·.replicate least most (isLazy != level.flags.swapGreed)) :: items }
  | _, _ => none

/--
What a token other than those of groups, bars and quantifiers matches.
-/
def atom? (flags : Flags) : Token → Option Regex
  | .char c => some (.one flags.ignoreCase (.single c))
  | .set s => some (.one flags.ignoreCase s)
  | .bracket s _ => some (.one flags.ignoreCase s)
  | .look condition => some (.look condition)
  | .any => some (.one false (if flags.dotAll then .compl .nothing else .compl (.single '\n')))
  | .start => some (.look (if flags.multiLine then .lineStart else .textStart))
  | .stop => some (.look (if flags.multiLine then .lineEnd else .textEnd))
  | _ => none

end Level

/--
Read the tokens up to the end of the pattern. `around` are the open levels around the innermost one.
-/
def ofTokens? (level : Level) (around : List Level) : List Token → Option (Nested Regex)
  | [] => if around.isEmpty then some level.close else none
  | .openGroup (.capture _) :: tokens =>
    ofTokens? (.start true level.flags) (level :: around) tokens
  | .openGroup (.plain change) :: tokens =>
    ofTokens? (.start false (level.flags.change change)) (level :: around) tokens
  | .closeGroup :: tokens =>
    match around with
    | [] => none
    | outer :: around => ofTokens? (outer.pushGroup level) around tokens
  | .bar :: tokens => ofTokens? level.bar around tokens
  | .setFlags change :: tokens => ofTokens? (level.setFlags change) around tokens
  | .quantifier least most isLazy :: tokens =>
    match level.quantify? least most isLazy with
    | some level => ofTokens? level around tokens
    | none => none
  | token :: tokens =>
    match Level.atom? level.flags token with
    | some r => ofTokens? (level.push ⟨r, token.depth⟩) around tokens
    | none => none

def groupNames (tokens : List Token) : List (List Char) :=
  tokens.filterMap fun
    | .openGroup (.capture name) => name
    | _ => none

/--
Patterns may not be nested more deeply.
-/
def deepest : Nat := 250

/--
The regular expression that a pattern describes, if it is well-formed. No two of its groups may have
the same name. Patterns with flags or escapes that are not read have none.
-/
def ofPattern? (pattern : List Char) : Option Regex :=
  match (Symbol.ofChars? pattern).bind Token.all? with
  | none => none
  | some tokens =>
    if (groupNames tokens).Nodup then
      match ofTokens? (.start false {}) [] tokens with
      | some r => if r.depth ≤ deepest then some r.value else none
      | none => none
    else
      none

end GramIndex.Regex
