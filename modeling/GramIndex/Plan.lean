import GramIndex.Gram

/-!
This module contains query plans: what a text must contain to match a pattern, as a tree of
conjunctions and disjunctions over literals. A plan says nothing about a part of the pattern that it
has no literals for.
-/

namespace GramIndex

/--
A condition on texts, with literals of type `α` at its leaves.
-/
inductive Plan (α : Type) where
  /-- Both sides must hold. -/
  | and (l r : Plan α)
  /-- One side must hold. -/
  | or (l r : Plan α)
  /-- The text must contain the literal. -/
  | literal (a : α)
  /-- There is no information; every text may match. -/
  | null
  deriving DecidableEq, Repr, Inhabited

namespace Plan

def isNull : Plan α → Bool
  | .null => true
  | _ => false

/--
The literals from left to right.
-/
def literals (p : Plan α) : List α :=
  go p []
where
  go : Plan α → List α → List α
    | .and l r, others => go l (go r others)
    | .or l r, others => go l (go r others)
    | .literal a, others => a :: others
    | .null, others => others

theorem literals_go (p : Plan α) (others : List α) :
    literals.go p others = p.literals ++ others := by
  have hgo (p : Plan α) (some others : List α) :
      literals.go p (some ++ others) = literals.go p some ++ others := by
    induction p generalizing some with
    | and l r ihl ihr => rw [literals.go, ihr, ihl, literals.go]
    | or l r ihl ihr => rw [literals.go, ihr, ihl, literals.go]
    | literal a => rfl
    | null => rfl
  exact hgo p [] others

@[simp]
theorem literals_and (l r : Plan α) : (Plan.and l r).literals = l.literals ++ r.literals :=
  literals_go l r.literals

@[simp]
theorem literals_or (l r : Plan α) : (Plan.or l r).literals = l.literals ++ r.literals :=
  literals_go l r.literals

@[simp]
theorem literals_literal (a : α) : (Plan.literal a).literals = [a] := rfl

@[simp]
theorem literals_null : (Plan.null : Plan α).literals = [] := rfl

def size : Plan α → Nat
  | .and l r => 1 + l.size + r.size
  | .or l r => 1 + l.size + r.size
  | .literal _ => 1
  | .null => 1

def expand (f : α → Plan β) : Plan α → Plan β
  | .and l r => .and (l.expand f) (r.expand f)
  | .or l r => .or (l.expand f) (r.expand f)
  | .literal a => f a
  | .null => .null

/--
The conjunction of plans from left to right, and no information if there are none.
-/
def all : List (Plan α) → Plan α
  | [] => .null
  | p :: ps => ps.foldl .and p

/--
The disjunction of plans from left to right, and no information if there are none.
-/
def any : List (Plan α) → Plan α
  | [] => .null
  | p :: ps => ps.foldl .or p

/--
Remove null nodes from the bottom up. A conjunction drops a null side. A disjunction with a null
side is null itself, since any text may match that side.
-/
def propagateNulls : Plan α → Plan α
  | .and l r =>
    let l := l.propagateNulls
    let r := r.propagateNulls
    if l.isNull then r else if r.isNull then l else .and l r
  | .or l r =>
    let l := l.propagateNulls
    let r := r.propagateNulls
    if l.isNull || r.isNull then .null else .or l r
  | .literal a => .literal a
  | .null => .null

/--
What a plan says about a text, given what its literals say.
-/
def Holds (p : α → Prop) : Plan α → Prop
  | .and l r => l.Holds p ∧ r.Holds p
  | .or l r => l.Holds p ∨ r.Holds p
  | .literal a => p a
  | .null => True

/--
Whether a text with the given bytes satisfies a plan: a literal asks that the bytes contain it.
-/
def Satisfies (bytes : Gram) (plan : Plan Gram) : Prop :=
  plan.Holds fun gram => gram <:+: bytes

end Plan

end GramIndex
