import GramIndex.Regex.Nested
import GramIndex.Regex.Symbol

/-!
This module contains the reading of bracket classes: members, ranges, nested classes, and the set
operations between them.
-/

namespace GramIndex.Regex.Bracket

/--
A set operation. All of them bind equally and group to the left.
-/
inductive Operation where
  | inter
  | diff
  | symmDiff
  deriving DecidableEq, Repr

def Operation.apply : Operation → CharSet → CharSet → CharSet
  | .inter => .inter
  | .diff => .diff
  | .symmDiff => .symmDiff

structure Open where
  negated : Bool
  /-- The left side of the last operation, if there was one. -/
  left : Option (Operation × Nested CharSet)
  /-- The members since then, last first. -/
  members : List (Nested CharSet)

namespace Open

def start (negated : Bool) (members : List Char) : Open :=
  ⟨negated, none, members.map fun c => .leaf (.single c)⟩

def add (o : Open) (set : Nested CharSet) : Open :=
  { o with members := set :: o.members }

/--
The set without regard to negation.
-/
def operand (o : Open) : Nested CharSet :=
  let members := Nested.join .union .nothing o.members
  match o.left with
  | none => members
  | some (op, left) => ⟨op.apply left.value members.value, max left.depth members.depth + 1⟩

def operate (o : Open) (op : Operation) : Open :=
  { o with left := some (op, o.operand), members := [] }

def close (o : Open) : Nested CharSet :=
  o.operand.wrap fun set => if o.negated then .compl set else set

end Open

/--
Read the head of a class after its opening bracket: a caret that negates, then hyphens that stand
for themselves, or one closing bracket that does.
-/
def head (symbols : List Symbol) : Open × List Symbol :=
  let (negated, symbols) := match symbols with
    | .plain '^' :: rest => (true, rest)
    | symbols => (false, symbols)
  match symbols with
  | .plain ']' :: rest => (.start negated [']'], rest)
  | symbols =>
    let hyphens := symbols.takeWhile (· = .plain '-')
    (.start negated (hyphens.map fun _ => '-'), symbols.dropWhile (· = .plain '-'))

theorem head_length (symbols : List Symbol) : (head symbols).2.length ≤ symbols.length := by
  have h (l : List Symbol) := (List.dropWhile_suffix (· = Symbol.plain '-') (l := l)).length_le
  unfold head
  grind

def char? : Symbol → Option Char
  | .plain c => some c
  | .escaped c =>
    match Escape.ofChar? c with
    | some (.char c) => some c
    | _ => none

/--
The characters that a symbol stands for, if it is about characters at all.
-/
def set? : Symbol → Option CharSet
  | .plain c => some (.single c)
  | .escaped c =>
    match Escape.ofChar? c with
    | some (.char c) => some (.single c)
    | some (.set s) => some s
    | _ => none

/--
The range between two symbols that are characters in order.
-/
def range? (first last : Symbol) : Option CharSet :=
  match char? first, char? last with
  | some a, some b => if a ≤ b then some (.range a b) else none
  | _, _ => none

/--
The classes that have a name, and the ranges of their characters.
-/
def namedRanges : List (String × List (Char × Char)) :=
  [("alnum", [('0', '9'), ('A', 'Z'), ('a', 'z')]),
    ("alpha", [('A', 'Z'), ('a', 'z')]),
    ("ascii", [('\x00', '\x7f')]),
    ("blank", [('\t', '\t'), (' ', ' ')]),
    ("cntrl", [('\x00', '\x1f'), ('\x7f', '\x7f')]),
    ("digit", [('0', '9')]),
    ("graph", [('!', '~')]),
    ("lower", [('a', 'z')]),
    ("print", [(' ', '~')]),
    ("punct", [('!', '/'), (':', '@'), ('[', '\x60'), ('\x7b', '~')]),
    ("space", [('\t', '\r'), (' ', ' ')]),
    ("upper", [('A', 'Z')]),
    ("word", [('0', '9'), ('A', 'Z'), ('_', '_'), ('a', 'z')]),
    ("xdigit", [('0', '9'), ('A', 'F'), ('a', 'f')])]

/--
Read the name of a class up to the colon and the closing bracket behind it.
-/
def name? (symbols : List Symbol) : Option (CharSet × List Symbol) :=
  namedRanges.findSome? fun (name, ranges) =>
    let own := (name.toList ++ [':', ']']).map Symbol.plain
    if own.isPrefixOf symbols then
      some (ranges.foldr (fun (first, last) set => .union (.range first last) set) .nothing,
        symbols.drop own.length)
    else
      none

/--
Read a class that is given by its name between colons, after its opening bracket. A caret before the
name negates the class.
-/
def named? (symbols : List Symbol) : Option (CharSet × List Symbol) :=
  match symbols with
  | .plain ':' :: .plain '^' :: rest => (name? rest).map fun (set, rest) => (.compl set, rest)
  | .plain ':' :: rest => name? rest
  | _ => none

theorem name?_length {symbols rest : List Symbol} {set : CharSet}
    (h : name? symbols = some (set, rest)) : rest.length ≤ symbols.length := by
  obtain ⟨⟨name, ranges⟩, _, h⟩ := List.exists_of_findSome?_eq_some h
  simp only at h
  split at h
  · cases h
    simp
  · cases h

theorem named?_length {symbols rest : List Symbol} {set : CharSet}
    (h : named? symbols = some (set, rest)) : rest.length ≤ symbols.length := by
  unfold named? at h
  split at h
  · obtain ⟨⟨_, others⟩, hname, heq⟩ := Option.map_eq_some_iff.1 h
    cases heq
    have := name?_length hname
    simp only [List.length_cons]
    omega
  · exact Nat.le_succ_of_le (name?_length h)
  · cases h

/--
Read the rest of a class up to its closing bracket. `around` are the open classes around the
innermost one. Also returns what follows.
-/
def body? (o : Open) (around : List Open) (symbols : List Symbol) :
    Option (Nested CharSet × List Symbol) :=
  match symbols with
  | [] => none
  | .plain '[' :: rest =>
    match _h : named? rest with
    | some (set, others) => body? (o.add (.leaf set)) around others
    | none => body? (head rest).1 (o :: around) (head rest).2
  | .plain ']' :: rest =>
    match around with
    | [] => some (o.close, rest)
    | outer :: around => body? (outer.add o.close) around rest
  | .plain '&' :: .plain '&' :: rest => body? (o.operate .inter) around rest
  | .plain '-' :: .plain '-' :: rest => body? (o.operate .diff) around rest
  | .plain '~' :: .plain '~' :: rest => body? (o.operate .symmDiff) around rest
  | first :: .plain '-' :: last :: rest =>
    if last = .plain ']' || last = .plain '-' then
      match set? first with
      | some set => body? (o.add (.leaf set)) around (.plain '-' :: last :: rest)
      | none => none
    else
      match range? first last with
      | some set => body? (o.add (.leaf set)) around rest
      | none => none
  | first :: rest =>
    match set? first with
    | some set => body? (o.add (.leaf set)) around rest
    | none => none
termination_by symbols.length
decreasing_by
  all_goals simp only [List.length_cons]
  · have := named?_length _h
    omega
  · have := head_length rest
    omega
  all_goals omega

theorem body?_length {o : Open} {around : List Open} {symbols rest : List Symbol}
    {set : Nested CharSet} (h : body? o around symbols = some (set, rest)) :
    rest.length < symbols.length := by
  fun_induction body? o around symbols with
  | case2 o around rest set others hnamed ih =>
    have := named?_length hnamed
    have := ih h
    simp only [List.length_cons]
    omega
  | case3 o around rest _ ih =>
    have := head_length rest
    have := ih h
    simp only [List.length_cons]
    omega
  | _ => simp_all <;> omega

/--
Read a class after its opening bracket: the class and what follows it.
-/
def read? (symbols : List Symbol) : Option (Nested CharSet × List Symbol) :=
  body? (head symbols).1 [] (head symbols).2

theorem read?_length {symbols rest : List Symbol} {set : Nested CharSet}
    (h : read? symbols = some (set, rest)) : rest.length < symbols.length :=
  Nat.lt_of_lt_of_le (body?_length h) (head_length symbols)

end GramIndex.Regex.Bracket
