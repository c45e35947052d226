import GramIndex.Matcher
import GramIndex.Proofs.Bytes
import GramIndex.Proofs.Plans
import Mathlib.Computability.Language

/-!
This module contains the patterns that say what they mean to the scanners: trees of alternatives,
literal runs and groups with quantifiers. A tree has a print, which is a pattern, a plan, and a
language, the texts that the pattern stands for. A text with one of these in it satisfies the plan.
-/

namespace GramIndex.Pattern

open Regex (Symbol)

/--
Whether a backslash makes a character stand for itself: ASCII punctuation, except for the angle
brackets, which then ask for the start or the end of a word.
-/
def isEscapable (c : Char) : Bool :=
  '!' ≤ c && c ≤ '~' && !c.isAlphanum && c ≠ '<' && c ≠ '>'

/--
Whether a symbol stands for its own character.
-/
def isLiteralSymbol : Symbol → Bool
  | .plain c => !isMetacharacter c
  | .escaped c => isEscapable c

def literalChar : Symbol → Char
  | .plain c => c
  | .escaped c => c

/--
Symbols in a row that stand for their own characters.
-/
structure Run where
  symbols : List Symbol
  ne_nil : symbols ≠ []
  literal : ∀ s ∈ symbols, isLiteralSymbol s = true

/--
The name of a group.
-/
structure GroupName where
  first : Char
  others : List Char
  first_valid : first.isAlpha = true ∨ first = '_'
  others_valid : ∀ c ∈ others, c.isAlphanum = true ∨ c = '_'

/--
How a group begins.
-/
inductive Opener where
  | capture
  | plain
  /-- A name with or without a letter before its angle bracket. -/
  | named (withLetter : Bool) (name : GroupName)

/--
A number in decimal digits.
-/
structure Numeral where
  digits : List Char
  ne_nil : digits ≠ []
  digits_valid : ∀ c ∈ digits, c.isDigit = true

/--
How often a group may follow itself.
-/
inductive Repetition where
  | zeroOrMore
  | oneOrMore
  | zeroOrOne
  | exactly (m : Numeral)
  | atLeast (m : Numeral)
  | between (m n : Numeral)

structure Quantifier where
  repetition : Repetition
  isLazy : Bool

/--
Quantifiers in a row. A question mark after a quantifier makes it lazy, so that it is a quantifier
of its own only after one that is lazy already.
-/
structure Quantifiers where
  toList : List Quantifier
  apart : toList.IsChain fun q r => r.repetition = .zeroOrOne → q.isLazy = true

mutual

/--
Alternatives, at least one, with bars between them.
-/
inductive Alternation where
  | last {runFirst : Bool} (items : Items runFirst)
  | bar {runFirst : Bool} (items : Items runFirst) (others : Alternation)

/--
Literal runs and groups in a row. No run follows another one, for which `runFirst` tells whether a
run comes first.
-/
inductive Items : Bool → Type where
  | nil : Items false
  | run (run : Run) (rest : Items false) : Items true
  | group {runFirst : Bool} (opener : Opener) (body : Alternation) (quantifiers : Quantifiers)
    (rest : Items runFirst) : Items false

end

section Print

def Run.print (run : Run) : List Char :=
  run.symbols.flatMap Symbol.chars

def GroupName.chars (name : GroupName) : List Char :=
  name.first :: name.others

/--
What follows the opening parenthesis of a group.
-/
def Opener.mark : Opener → List Char
  | .capture => []
  | .plain => ['?', ':']
  | .named withLetter name =>
    '?' :: (if withLetter then ['P', '<'] else ['<']) ++ name.chars ++ ['>']

def Repetition.print : Repetition → List Char
  | .zeroOrMore => ['*']
  | .oneOrMore => ['+']
  | .zeroOrOne => ['?']
  | .exactly m => '\x7b' :: m.digits ++ ['\x7d']
  | .atLeast m => '\x7b' :: m.digits ++ [',', '\x7d']
  | .between m n => '\x7b' :: m.digits ++ ',' :: n.digits ++ ['\x7d']

def Quantifier.print (q : Quantifier) : List Char :=
  q.repetition.print ++ if q.isLazy then ['?'] else []

mutual

/--
The pattern of a tree.
-/
def Alternation.print : Alternation → List Char
  | .last items => items.print
  | .bar items others => items.print ++ '|' :: others.print

def Items.print {runFirst : Bool} : Items runFirst → List Char
  | .nil => []
  | .run run rest => run.print ++ rest.print
  | .group opener body quantifiers rest =>
    '(' :: opener.mark ++ body.print ++
      ')' :: (quantifiers.toList.flatMap Quantifier.print ++ rest.print)

end

end Print

section Meaning

/--
The characters that a literal run stands for.
-/
def Run.chars (run : Run) : List Char :=
  run.symbols.map literalChar

def Numeral.value (n : Numeral) : Nat :=
  n.digits.foldl (fun value c => 10 * value + (c.toNat - '0'.toNat)) 0

def Repetition.least : Repetition → Nat
  | .zeroOrMore => 0
  | .oneOrMore => 1
  | .zeroOrOne => 0
  | .exactly m => m.value
  | .atLeast m => m.value
  | .between m _ => m.value

def Repetition.most : Repetition → Option Nat
  | .zeroOrMore => none
  | .oneOrMore => none
  | .zeroOrOne => some 1
  | .exactly m => some m.value
  | .atLeast _ => none
  | .between _ n => some n.value

/--
Whether a group with these quantifiers must occur.
-/
def Quantifiers.required (quantifiers : Quantifiers) : Bool :=
  quantifiers.toList.all fun q => 1 ≤ q.repetition.least

mutual

/--
The plans of the alternatives. The plan of a literal run asks for its bytes. A group that must occur
has the plan of its alternatives, and any other group says nothing.
-/
def Alternation.plans : Alternation → List (Plan Gram)
  | .last items => [.all items.plans]
  | .bar items others => .all items.plans :: others.plans

def Items.plans {runFirst : Bool} : Items runFirst → List (Plan Gram)
  | .nil => []
  | .run run rest => .literal (utf8 run.chars) :: rest.plans
  | .group _ body quantifiers rest =>
    (if quantifiers.required then .any body.plans else .null) :: rest.plans

end

def Alternation.plan (t : Alternation) : Plan Gram :=
  .any t.plans

/--
The texts of a language as often in a row as a repetition allows.
-/
def Repetition.repeated (r : Repetition) (l : Language Char) : Language Char :=
  {w | ∃ n, r.least ≤ n ∧ (∀ m, r.most = some m → n ≤ m) ∧ w ∈ l ^ n}

/--
Each quantifier repeats what is before it, quantifiers included.
-/
def Quantifiers.repeated (quantifiers : Quantifiers) (l : Language Char) : Language Char :=
  quantifiers.toList.foldl (fun l q => q.repetition.repeated l) l

mutual

/--
The texts that a tree stands for.
-/
def Alternation.language : Alternation → Language Char
  | .last items => items.language
  | .bar items others => items.language + others.language

def Items.language {runFirst : Bool} : Items runFirst → Language Char
  | .nil => 1
  | .run run rest => {run.chars} * rest.language
  | .group _ body quantifiers rest => quantifiers.repeated body.language * rest.language

end

end Meaning

section Soundness

variable {l : Language Char} {w : List Char}

theorem Repetition.exists_infix {r : Repetition} (hleast : 1 ≤ r.least) (h : w ∈ r.repeated l) :
    ∃ v ∈ l, v <:+: w := by
  obtain ⟨n, hn, _, hpow⟩ := h
  obtain ⟨k, rfl⟩ : ∃ k, n = k + 1 := Nat.exists_eq_add_of_le' (Nat.le_trans hleast hn)
  rw [pow_succ', Language.mem_mul] at hpow
  obtain ⟨v, hv, others, _, rfl⟩ := hpow
  exact ⟨v, hv, (List.prefix_append v others).isInfix⟩

theorem Quantifiers.exists_infix {quantifiers : Quantifiers}
    (hrequired : quantifiers.required = true) (h : w ∈ quantifiers.repeated l) :
    ∃ v ∈ l, v <:+: w := by
  obtain ⟨qs, apart⟩ := quantifiers
  simp only [required] at hrequired
  simp only [repeated] at h
  clear apart
  -- The first quantifier repeats the language itself, and each other one what is before it.
  induction qs generalizing l with
  | nil => exact ⟨w, h, List.infix_rfl⟩
  | cons q qs ih =>
    rw [List.all_cons, Bool.and_eq_true, decide_eq_true_iff] at hrequired
    obtain ⟨u, hu, huw⟩ := ih hrequired.2 h
    obtain ⟨v, hv, hvu⟩ := Repetition.exists_infix hrequired.1 hu
    exact ⟨v, hv, hvu.trans huw⟩

mutual

theorem Alternation.exists_satisfies (t : Alternation) {w : List Char} {bytes : Gram}
    (h : w ∈ t.language) (hbytes : utf8 w <:+: bytes) : ∃ p ∈ t.plans, p.Satisfies bytes := by
  cases t with
  | last items =>
    exact ⟨_, List.mem_singleton.2 rfl, Plan.holds_all.2 (items.satisfies h hbytes)⟩
  | bar items others =>
    cases (Language.mem_add _ _ _).1 h with
    | inl h => exact ⟨_, List.mem_cons_self, Plan.holds_all.2 (items.satisfies h hbytes)⟩
    | inr h =>
      obtain ⟨p, hp, hsatisfies⟩ := others.exists_satisfies h hbytes
      exact ⟨p, List.mem_cons_of_mem _ hp, hsatisfies⟩

theorem Items.satisfies {runFirst : Bool} (items : Items runFirst) {w : List Char} {bytes : Gram}
    (h : w ∈ items.language) (hbytes : utf8 w <:+: bytes) :
    ∀ p ∈ items.plans, p.Satisfies bytes := by
  cases items with
  | nil => simp [Items.plans]
  | run run rest =>
    obtain ⟨_, rfl, v, hv, rfl⟩ := Language.mem_mul.1 h
    rw [utf8_append] at hbytes
    simp only [Items.plans, List.forall_mem_cons]
    refine ⟨(List.prefix_append _ _).isInfix.trans hbytes, ?_⟩
    exact rest.satisfies hv ((List.suffix_append _ _).isInfix.trans hbytes)
  | group opener body quantifiers rest =>
    obtain ⟨u, hu, v, hv, rfl⟩ := Language.mem_mul.1 h
    rw [utf8_append] at hbytes
    simp only [Items.plans, List.forall_mem_cons]
    refine ⟨?_, rest.satisfies hv ((List.suffix_append _ _).isInfix.trans hbytes)⟩
    split
    · next hrequired =>
      obtain ⟨inside, hinside, hinfix⟩ := Quantifiers.exists_infix hrequired hu
      have hoccurs : utf8 inside <:+: utf8 u := utf8_infix hinfix
      obtain ⟨p, hp, hsatisfies⟩ := body.exists_satisfies hinside
        (hoccurs.trans ((List.prefix_append _ _).isInfix.trans hbytes))
      exact Plan.Holds.any hp hsatisfies
    · trivial

end

/--
A text with a text of the language in it satisfies the plan of the tree.
-/
theorem Alternation.satisfies_plan (t : Alternation) {bytes : Gram} (h : w ∈ t.language)
    (hbytes : utf8 w <:+: bytes) : t.plan.Satisfies bytes := by
  obtain ⟨p, hp, hsatisfies⟩ := t.exists_satisfies h hbytes
  exact Plan.Holds.any hp hsatisfies

end Soundness

end GramIndex.Pattern
