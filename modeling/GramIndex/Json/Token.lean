import GramIndex.Json.Number

/-!
This module contains the tokens of JSON texts and how a text is cut into them. The rules are those
of the strict grammar: no comments, no leading zeros, no bare control characters in strings.
-/

namespace GramIndex.Json

/--
A piece of a string: a character, or a code unit given by four hexadecimal digits.
-/
inductive StringPart where
  | char (c : Char)
  | unit (code : Nat)
  deriving DecidableEq, Repr

inductive Token where
  | openObject
  | closeObject
  | openArray
  | closeArray
  | colon
  | comma
  | null
  | bool (b : Bool)
  | number (n : Number)
  | string (parts : List StringPart)
  deriving DecidableEq, Repr

namespace StringPart

/--
The characters of a string. Code units outside the surrogates are characters, a high surrogate and
the low one after it are one together, and a surrogate alone is none.
-/
def decode? : List StringPart → Option (List Char)
  | [] => some []
  | .char c :: rest => (decode? rest).map (c :: ·)
  | .unit high :: rest =>
    if 0xD800 ≤ high && high ≤ 0xDBFF then
      match rest with
      | .unit low :: rest =>
        if 0xDC00 ≤ low && low ≤ 0xDFFF then
          (decode? rest).map (.ofNat (0x10000 + (high - 0xD800) * 0x400 + (low - 0xDC00)) :: ·)
        else
          none
      | _ => none
    else if 0xDC00 ≤ high && high ≤ 0xDFFF then
      none
    else
      (decode? rest).map (.ofNat high :: ·)

end StringPart

namespace Token

def isSpace (c : Char) : Bool :=
  c = ' ' || c = '\t' || c = '\n' || c = '\r'

def hexDigit? (c : Char) : Option Nat :=
  if '0' ≤ c && c ≤ '9' then
    some (c.toNat - '0'.toNat)
  else if 'a' ≤ c && c ≤ 'f' then
    some (10 + c.toNat - 'a'.toNat)
  else if 'A' ≤ c && c ≤ 'F' then
    some (10 + c.toNat - 'A'.toNat)
  else
    none

/--
The character that a letter stands for after a backslash.
-/
def simpleEscape? (c : Char) : Option Char :=
  match c with
  | '"' => some '"'
  | '\\' => some '\\'
  | '/' => some '/'
  | 'b' => some '\x08'
  | 'f' => some '\x0c'
  | 'n' => some '\n'
  | 'r' => some '\r'
  | 't' => some '\t'
  | _ => none

/--
The code unit that four hexadecimal digits stand for.
-/
def codeUnit? (a b c d : Char) : Option Nat := do
  return (((← hexDigit? a) * 16 + (← hexDigit? b)) * 16 + (← hexDigit? c)) * 16 + (← hexDigit? d)

/--
Read a string from after its opening quote to its closing quote. Also returns what follows.
-/
def string? : List Char → Option (List StringPart × List Char)
  | [] => none
  | '"' :: rest => some ([], rest)
  | '\\' :: 'u' :: a :: b :: c :: d :: rest =>
    match codeUnit? a b c d, string? rest with
    | some code, some (parts, rest) => some (.unit code :: parts, rest)
    | _, _ => none
  | '\\' :: e :: rest =>
    match simpleEscape? e, string? rest with
    | some c, some (parts, rest) => some (.char c :: parts, rest)
    | _, _ => none
  | c :: rest =>
    if c = '\\' ∨ c.toNat < 0x20 then
      none
    else
      match string? rest with
      | some (parts, rest) => some (.char c :: parts, rest)
      | none => none

theorem string?_length {cs rest : List Char} {parts : List StringPart}
    (h : string? cs = some (parts, rest)) : rest.length < cs.length := by
  fun_induction string? cs generalizing parts rest <;> simp_all <;> grind

def digits (cs : List Char) : List Char × List Char :=
  (cs.takeWhile Char.isDigit, cs.dropWhile Char.isDigit)

/--
Read a point and at least one digit, if a point is next.
-/
def fraction? : List Char → Option (Option (List Char) × List Char)
  | '.' :: rest =>
    match digits rest with
    | ([], _) => none
    | (ds, rest) => some (some ds, rest)
  | rest => some (none, rest)

/--
Split off a minus sign, if there is one, and say whether there was.
-/
def minus : List Char → Bool × List Char
  | '-' :: rest => (true, rest)
  | rest => (false, rest)

/--
Split off the sign of an exponent, which may be a plus sign as well.
-/
def plusMinus : List Char → Bool × List Char
  | '+' :: rest => (false, rest)
  | rest => minus rest

/--
Read an exponent, if one is next: its mark, an optional sign, and at least one digit.
-/
def exponent? : List Char → Option (Option (Bool × List Char) × List Char)
  | [] => some (none, [])
  | c :: rest =>
    if c = 'e' || c = 'E' then
      match digits (plusMinus rest).2 with
      | ([], _) => none
      | (ds, after) => some (some ((plusMinus rest).1, ds), after)
    else
      some (none, c :: rest)

/--
Read the whole part of a number: a zero alone, or digits that start with another one.
-/
def whole? (cs : List Char) : Option (List Char × List Char) :=
  match digits cs with
  | ([], _) => none
  | ('0' :: _ :: _, _) => none
  | (whole, rest) => some (whole, rest)

def number? (cs : List Char) : Option (Number × List Char) :=
  match whole? (minus cs).2 with
  | none => none
  | some (whole, rest) =>
    match fraction? rest with
    | none => none
    | some (fraction, rest) =>
      match exponent? rest with
      | none => none
      | some (exponent, rest) => some (⟨(minus cs).1, whole, fraction, exponent⟩, rest)

theorem digits_length (cs : List Char) :
    (digits cs).1.length + (digits cs).2.length = cs.length := by
  simp only [digits]
  rw [← List.length_append, List.takeWhile_append_dropWhile]

theorem fraction?_length {cs rest : List Char} {f : Option (List Char)}
    (h : fraction? cs = some (f, rest)) : rest.length ≤ cs.length := by
  unfold fraction? at h
  split at h
  · rename_i tail
    have := digits_length tail
    grind
  · grind

theorem minus_length (cs : List Char) : (minus cs).2.length ≤ cs.length := by
  unfold minus
  split <;> simp

theorem plusMinus_length (cs : List Char) : (plusMinus cs).2.length ≤ cs.length := by
  unfold plusMinus
  split
  · simp
  · exact minus_length _

theorem exponent?_length {cs rest : List Char} {e : Option (Bool × List Char)}
    (h : exponent? cs = some (e, rest)) : rest.length ≤ cs.length := by
  unfold exponent? at h
  split at h
  · grind
  · rename_i c tail
    have := digits_length (plusMinus tail).2
    have := plusMinus_length tail
    grind

theorem whole?_length {cs rest whole : List Char} (h : whole? cs = some (whole, rest)) :
    rest.length < cs.length := by
  have := digits_length cs
  unfold whole? at h
  grind [List.length_pos_iff]

theorem number?_length {cs rest : List Char} {n : Number}
    (h : number? cs = some (n, rest)) : rest.length < cs.length := by
  have := minus_length cs
  unfold number? at h
  split at h
  · simp at h
  · have := whole?_length ‹_›
    split at h
    · simp at h
    · have := fraction?_length ‹_›
      split at h
      · simp at h
      · have := exponent?_length ‹_›
        grind

/--
Cut a text into tokens, dropping the blanks between them.
-/
def lex (cs : List Char) : Option (List Token) :=
  match cs with
  | [] => some []
  | c :: rest =>
    if isSpace c then
      lex rest
    else
      match c with
      | '\x7b' => (lex rest).map (.openObject :: ·)
      | '\x7d' => (lex rest).map (.closeObject :: ·)
      | '[' => (lex rest).map (.openArray :: ·)
      | ']' => (lex rest).map (.closeArray :: ·)
      | ':' => (lex rest).map (.colon :: ·)
      | ',' => (lex rest).map (.comma :: ·)
      | '"' =>
        match h : string? rest with
        | none => none
        | some (parts, rest') =>
          have := string?_length h
          (lex rest').map (.string parts :: ·)
      | 'n' =>
        match rest with
        | 'u' :: 'l' :: 'l' :: rest => (lex rest).map (.null :: ·)
        | _ => none
      | 't' =>
        match rest with
        | 'r' :: 'u' :: 'e' :: rest => (lex rest).map (.bool true :: ·)
        | _ => none
      | 'f' =>
        match rest with
        | 'a' :: 'l' :: 's' :: 'e' :: rest => (lex rest).map (.bool false :: ·)
        | _ => none
      | _ =>
        match h : number? (c :: rest) with
        | none => none
        | some (n, rest') =>
          have := number?_length h
          (lex rest').map (.number n :: ·)
termination_by cs.length
decreasing_by all_goals simp_all <;> omega

end Token

end GramIndex.Json
