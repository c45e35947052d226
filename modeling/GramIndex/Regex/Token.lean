import GramIndex.Regex.Bracket

/-!
This module contains the tokens of patterns, from single characters to the heads of groups, and how
symbols are cut into them.
-/

namespace GramIndex.Regex

/--
The flags of patterns. Those for blanks and comments (`x`), for line ends of two characters (`R`)
and for Unicode (`u`) are not read.
-/
inductive Flag where
  | ignoreCase
  | multiLine
  | dotAll
  /-- Lazy and greedy change places. -/
  | swapGreed
  deriving DecidableEq, Repr

def Flag.ofChar? (c : Char) : Option Flag :=
  match c with
  | 'i' => some .ignoreCase
  | 'm' => some .multiLine
  | 's' => some .dotAll
  | 'U' => some .swapGreed
  | _ => none

/--
Flags to turn on and flags to turn off.
-/
structure FlagChange where
  on : List Flag
  off : List Flag
  deriving DecidableEq, Repr

/--
What the head of a group says.
-/
inductive GroupHead where
  | capture (name : Option (List Char))
  /-- A group that only holds things together, with flags of its own. -/
  | plain (change : FlagChange)
  deriving DecidableEq, Repr

inductive Token where
  | char (c : Char)
  | set (s : CharSet)
  /-- A class in brackets, with how deeply it is nested. -/
  | bracket (s : CharSet) (depth : Nat)
  | look (condition : Look)
  /-- A point: any character, line ends only if the flags say so. -/
  | any
  /-- A caret: the start of the text, or of a line if the flags say so. -/
  | start
  /-- A dollar sign: the end of the text, or of a line if the flags say so. -/
  | stop
  | bar
  | openGroup (head : GroupHead)
  | closeGroup
  /-- Flags for the rest of the group. -/
  | setFlags (change : FlagChange)
  | quantifier (least : Nat) (most : Option Nat) (isLazy : Bool)
  deriving DecidableEq, Repr

namespace Token

def depth : Token → Nat
  | .bracket _ depth => depth
  | _ => 0

/--
Blanks may stand around the numbers of a counted repetition.
-/
def isBlankSymbol : Symbol → Bool
  | .plain c => Unicode.isBlank c
  | .escaped _ => false

def digit? : Symbol → Option Nat
  | .plain c => if c.isDigit then some (c.toNat - '0'.toNat) else none
  | .escaped _ => none

/--
The first number that is too large for a bound of a repetition.
-/
def boundLimit : Nat := UInt32.size

/--
Read a number with blanks around it.
-/
def bound? (symbols : List Symbol) : Option (Nat × List Symbol) :=
  let symbols := symbols.dropWhile isBlankSymbol
  let digits := symbols.takeWhile fun s => (digit? s).isSome
  let rest := symbols.dropWhile fun s => (digit? s).isSome
  let value := (digits.filterMap digit?).foldl (fun n d => 10 * n + d) 0
  if digits.isEmpty || boundLimit ≤ value then
    none
  else
    some (value, rest.dropWhile isBlankSymbol)

/--
Read the bounds of a counted repetition after its opening brace, up to its closing one.
-/
def bounds? (symbols : List Symbol) : Option ((Nat × Option Nat) × List Symbol) :=
  match bound? symbols with
  | none => none
  | some (least, .plain '\x7d' :: rest) => some ((least, some least), rest)
  | some (least, .plain ',' :: .plain '\x7d' :: rest) => some ((least, none), rest)
  | some (least, .plain ',' :: rest) =>
    match bound? rest with
    | some (most, .plain '\x7d' :: rest) =>
      if least ≤ most then some ((least, some most), rest) else none
    | _ => none
  | some _ => none

/--
Complete a quantifier, which a question mark makes lazy.
-/
def quantify (least : Nat) (most : Option Nat) : List Symbol → Token × List Symbol
  | .plain '?' :: rest => (.quantifier least most true, rest)
  | rest => (.quantifier least most false, rest)

def isNameStart (c : Char) : Bool :=
  c = '_' || Unicode.isAlphabetic c

def isNameChar (c : Char) : Bool :=
  c = '_' || c = '.' || c = '[' || c = ']' || Unicode.isAlphabetic c || Unicode.isNumber c

/--
Read the rest of a name up to the angle bracket that ends it.
-/
def nameRest? : List Symbol → Option (List Char × List Symbol)
  | .plain '>' :: rest => some ([], rest)
  | .plain c :: rest =>
    if isNameChar c then
      match nameRest? rest with
      | some (name, rest) => some (c :: name, rest)
      | none => none
    else
      none
  | _ => none

/--
Read a name, which is not empty, up to the angle bracket that ends it.
-/
def name? : List Symbol → Option (List Char × List Symbol)
  | .plain c :: rest =>
    if isNameStart c then
      match nameRest? rest with
      | some (name, rest) => some (c :: name, rest)
      | none => none
    else
      none
  | _ => none

/--
Read flags: each at most once, the ones to turn off after one minus sign. Returns also whether they
are the head of a group, which a colon ends, or stand alone.
-/
def flags? (change : FlagChange) (negated : Bool) :
    List Symbol → Option (FlagChange × Bool × List Symbol)
  | .plain ':' :: rest => if negated && change.off.isEmpty then none else some (change, true, rest)
  | .plain ')' :: rest =>
    if change.off.isEmpty && (negated || change.on.isEmpty) then none
    else some (change, false, rest)
  | .plain '-' :: rest => if negated then none else flags? change true rest
  | .plain c :: rest =>
    match Flag.ofChar? c with
    | none => none
    | some f =>
      if f ∈ change.on ∨ f ∈ change.off then
        none
      else if negated then
        flags? { change with off := f :: change.off } negated rest
      else
        flags? { change with on := f :: change.on } negated rest
  | _ => none

def named? (symbols : List Symbol) : Option (Token × List Symbol) :=
  match name? symbols with
  | some (name, rest) => some (.openGroup (.capture (some name)), rest)
  | none => none

/--
Read what follows an opening parenthesis: the mark, name or flags of a special group, or nothing.
-/
def group? : List Symbol → Option (Token × List Symbol)
  | .plain '?' :: .plain 'P' :: .plain '<' :: rest => named? rest
  | .plain '?' :: .plain '<' :: rest => named? rest
  | .plain '?' :: rest =>
    match flags? ⟨[], []⟩ false rest with
    | some (change, true, rest) => some (.openGroup (.plain change), rest)
    | some (change, false, rest) => some (.setFlags change, rest)
    | none => none
  | rest => some (.openGroup (.capture none), rest)

theorem bound?_length {symbols rest : List Symbol} {n : Nat} (h : bound? symbols = some (n, rest)) :
    rest.length ≤ symbols.length := by
  have hd (p : Symbol → Bool) (l : List Symbol) := (List.dropWhile_suffix p (l := l)).length_le
  unfold bound? at h
  grind

theorem bounds?_length {symbols rest : List Symbol} {b : Nat × Option Nat}
    (h : bounds? symbols = some (b, rest)) : rest.length < symbols.length := by
  have hb := @bound?_length
  unfold bounds? at h
  split at h
  · simp at h
  · have := hb ‹_›
    grind
  · have := hb ‹_›
    grind
  · have := hb ‹_›
    split at h
    · have := hb ‹_›
      grind
    · simp at h
  · simp at h

theorem quantify_length (least : Nat) (most : Option Nat) (symbols : List Symbol) :
    (quantify least most symbols).2.length ≤ symbols.length := by
  unfold quantify
  split <;> simp

theorem nameRest?_length {symbols rest : List Symbol} {name : List Char}
    (h : nameRest? symbols = some (name, rest)) : rest.length < symbols.length := by
  fun_induction nameRest? symbols generalizing name rest <;> grind

theorem named?_length {symbols rest : List Symbol} {t : Token}
    (h : named? symbols = some (t, rest)) : rest.length < symbols.length := by
  have := @nameRest?_length
  unfold named? name? at h
  grind

theorem flags?_length {change change' : FlagChange} {negated head : Bool}
    {symbols rest : List Symbol} (h : flags? change negated symbols = some (change', head, rest)) :
    rest.length < symbols.length := by
  fun_induction flags? change negated symbols <;> grind

theorem group?_length {symbols rest : List Symbol} {t : Token}
    (h : group? symbols = some (t, rest)) : rest.length ≤ symbols.length := by
  unfold group? at h
  split at h
  · have := named?_length h
    grind
  · have := named?_length h
    grind
  · split at h
    · have := flags?_length ‹_›
      grind
    · have := flags?_length ‹_›
      grind
    · simp at h
  · grind

def ofEscape : Escape → Token
  | .char c => .char c
  | .set s => .set s
  | .look condition => .look condition

/--
Read the first token. Also returns what follows it.
-/
def first? : List Symbol → Option (Token × List Symbol)
  | [] => none
  | .escaped c :: rest =>
    match Escape.ofChar? c with
    | some e => some (ofEscape e, rest)
    | none => none
  | .plain c :: rest =>
    match c with
    | '.' => some (.any, rest)
    | '^' => some (.start, rest)
    | '$' => some (.stop, rest)
    | '|' => some (.bar, rest)
    | ')' => some (.closeGroup, rest)
    | '(' => group? rest
    | '[' =>
      match Bracket.read? rest with
      | some (s, rest) => some (.bracket s.value s.depth, rest)
      | none => none
    | '*' => some (quantify 0 none rest)
    | '+' => some (quantify 1 none rest)
    | '?' => some (quantify 0 (some 1) rest)
    | '\x7b' =>
      match bounds? rest with
      | some ((least, most), rest) => some (quantify least most rest)
      | none => none
    | c => some (.char c, rest)

theorem first?_length {symbols rest : List Symbol} {t : Token}
    (h : first? symbols = some (t, rest)) : rest.length < symbols.length := by
  have hl := quantify_length
  unfold first? at h
  split at h
  · simp at h
  · grind
  · split at h
    all_goals try (simp only [Option.some.injEq] at h; grind)
    · have := group?_length h
      grind
    · split at h
      · have := Bracket.read?_length ‹_›
        grind
      · simp at h
    · split at h
      · have := bounds?_length ‹_›
        grind
      · simp at h

/--
Cut a whole pattern into tokens.
-/
def all? (symbols : List Symbol) : Option (List Token) :=
  if symbols.isEmpty then
    some []
  else
    match _h : first? symbols with
    | some (t, rest) => (all? rest).map (t :: ·)
    | none => none
termination_by symbols.length
decreasing_by exact first?_length _h

end Token

end GramIndex.Regex
