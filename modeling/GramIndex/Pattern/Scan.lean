import GramIndex.Gram

/-!
This module contains the scanners that find the structure of a pattern in its bytes. They know
escapes, bracket classes, groups and bars, and take everything else as it comes, so they answer for
any bytes, a well-formed pattern or not.
-/

namespace GramIndex.Pattern

abbrev byte (c : Char) : UInt8 := c.toUInt8

inductive ClassState where
  /-- After an opening bracket: a caret negates. -/
  | opened
  /-- At the first member: a closing bracket stands for itself. -/
  | first
  | inside
  /-- After a backslash: the next byte stands for itself. -/
  | escaped
  deriving DecidableEq, Repr

inductive Place where
  /-- The next byte carries structure or stands for itself. -/
  | outside
  /-- After a backslash: the next byte stands for itself. -/
  | escaped
  /-- In a bracket class, which has `depth` other classes around it. -/
  | bracket (state : ClassState) (depth : Nat)
  deriving DecidableEq, Repr

namespace Place

/--
The place after a byte. A class that is never closed goes on to the end of the pattern.
-/
def next : Place → UInt8 → Place
  | .outside, b =>
    if b = byte '\\' then .escaped
    else if b = byte '[' then .bracket .opened 0
    else .outside
  | .escaped, _ => .outside
  | .bracket .escaped depth, _ => .bracket .inside depth
  | .bracket state depth, b =>
    if b = byte '^' && state = .opened then
      .bracket .first depth
    else if b = byte ']' && state ≠ .inside then
      .bracket .inside depth
    else if b = byte '[' then
      .bracket .opened (depth + 1)
    else if b = byte '\\' then
      .bracket .escaped depth
    else if b = byte ']' then
      match depth with
      | 0 => .outside
      | depth + 1 => .bracket .inside depth
    else
      .bracket .inside depth

/--
The number of open groups after a byte at a place. A closing parenthesis without a group has no
effect.
-/
def groups (place : Place) (depth : Nat) (b : UInt8) : Nat :=
  if place = .outside then
    if b = byte '(' then depth + 1
    else if b = byte ')' then depth - 1
    else depth
  else
    depth

end Place

/--
Split a pattern at the bars that stand inside no group. There is always a first part.
-/
def splitBars (bytes : Gram) : Gram × List Gram :=
  go .outside 0 bytes
where
  /-- `depth` counts the open groups. -/
  go (place : Place) (depth : Nat) : Gram → Gram × List Gram
    | [] => ([], [])
    | b :: rest =>
      let (first, parts) := go (place.next b) (place.groups depth b) rest
      if place = .outside ∧ depth = 0 ∧ b = byte '|' then
        ([], first :: parts)
      else
        (b :: first, parts)

/--
Split a pattern at its first opening parenthesis: the bytes before it and the bytes after it, if
there is one.
-/
def splitOpen (bytes : Gram) : Gram × Option Gram :=
  go .outside bytes
where
  go (place : Place) : Gram → Gram × Option Gram
    | [] => ([], none)
    | b :: rest =>
      if place = .outside ∧ b = byte '(' then
        ([], some rest)
      else
        let (before, after) := go (place.next b) rest
        (b :: before, after)

/--
Split the bytes after an opening parenthesis at the parenthesis that closes it, if there is one: the
inside of the group and the bytes after it.
-/
def splitClose (bytes : Gram) : Option (Gram × Gram) :=
  go .outside 0 bytes
where
  /-- `depth` counts the groups that are open inside the group. -/
  go (place : Place) (depth : Nat) : Gram → Option (Gram × Gram)
    | [] => none
    | b :: rest =>
      if place = .outside ∧ depth = 0 ∧ b = byte ')' then
        some ([], rest)
      else
        match go (place.next b) (place.groups depth b) rest with
        | some (inside, after) => some (b :: inside, after)
        | none => none

def isDigit (b : UInt8) : Bool :=
  byte '0' ≤ b && b ≤ byte '9'

def isLetter (b : UInt8) : Bool :=
  byte 'a' ≤ b && b ≤ byte 'z' || byte 'A' ≤ b && b ≤ byte 'Z'

/--
Whether a counted repetition with the given bounds, as in `m`, `m,` and `m,n`, needs one occurrence
at least.
-/
def atLeastOnce (bounds : Gram) : Bool :=
  let least := bounds.takeWhile (· ≠ byte ',')
  !least.isEmpty && least.all isDigit && least.any (· ≠ byte '0')

/--
Read the quantifiers that follow a group: whether the group must occur, and the bytes after the last
quantifier. Of stacked quantifiers each must ask for an occurrence. A brace that is never closed is
no quantifier.
-/
def quantifiers (bytes : Gram) : Bool × Gram :=
  go true false bytes
where
  /-- A question mark right after a quantifier makes it lazy, which `lazy` allows once. -/
  go (required lazy : Bool) : Gram → Bool × Gram
    | [] => (required, [])
    | b :: rest =>
      if b = byte '?' && lazy then
        go required false rest
      else if b = byte '*' || b = byte '?' then
        go false true rest
      else if b = byte '+' then
        go required true rest
      else if b = byte '\x7b' then
        match _h : rest.dropWhile (· ≠ byte '\x7d') with
        | [] => (required, b :: rest)
        | _ :: after => go (required && atLeastOnce (rest.takeWhile (· ≠ byte '\x7d'))) true after
      else
        (required, b :: rest)
  termination_by bytes => bytes.length
  decreasing_by
    · simp
    · simp
    · simp
    · have := (List.dropWhile_suffix (· ≠ byte '\x7d') (l := rest)).length_le
      simp_all
      omega

/--
The part of a group that is a pattern of its own: without the marks of a group that does not capture
and without a name. Lookaround and groups with flags of their own have none.
-/
def groupBody? (inside : Gram) : Option Gram :=
  match inside with
  | [] => some []
  | b :: rest =>
    if b ≠ byte '?' then
      some inside
    else
      match rest with
      | [] => none
      | c :: rest =>
        if c = byte ':' then
          some rest
        else if c = byte '<' then
          named rest
        else if c = byte 'P' && rest.head? = some (byte '<') then
          named (rest.drop 1)
        else
          none
where
  /-- What follows a name that ends with an angle bracket. -/
  named (bytes : Gram) : Option Gram :=
    if bytes.head? = some (byte '=') || bytes.head? = some (byte '!') then
      none
    else
      match bytes.dropWhile (· ≠ byte '>') with
      | [] => none
      | _ :: body => some body

/--
Whether the bytes after an opening parenthesis make it a group that only sets flags, such as `(?i)`
or `(?-s)`.
-/
def opensFlags : Gram → Bool
  | q :: f :: rest => q = byte '?' && isFlag f && closesFlags rest
  | _ => false
where
  isFlag (b : UInt8) : Bool := isLetter b || b = byte '-'
  closesFlags : Gram → Bool
    | b :: rest => b = byte ')' || isFlag b && closesFlags rest
    | _ => false

/--
Whether a pattern sets flags outside the head of a group, which changes how later literals match.
-/
def hasInlineFlags (bytes : Gram) : Bool :=
  go .outside bytes
where
  go (place : Place) : Gram → Bool
    | [] => false
    | b :: rest =>
      place = .outside && b = byte '(' && opensFlags rest || go (place.next b) rest

end GramIndex.Pattern
