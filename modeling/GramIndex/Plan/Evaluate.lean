import GramIndex.IdList
import GramIndex.Index
import GramIndex.Plan

/-!
This module contains the use of plans with an index: the literals of a plan are replaced by keys of
the index, and a plan of keys is evaluated to the records that satisfy it.
-/

namespace GramIndex.Plan

/--
The conjunction of the keys that cover a literal, which says nothing if no key occurs in it.
-/
def cover (index : Index) (text : Gram) : Plan Gram :=
  all ((index.coveringKeys text).map .literal)

/--
Replace each literal by the keys of the index that cover it, and remove null nodes.
-/
def withKeys (index : Index) (plan : Plan Gram) : Plan Gram :=
  (plan.expand (cover index)).propagateNulls

/--
What a subplan comes to, by itself and as a part of a longer chain of nodes of one kind. No list of
ids means that the subplan does not constrain the records.
-/
structure Outcome where
  ids : Option (List RecordId)
  /-- The lists that it adds to a conjunction; operands without a list do not narrow the others. -/
  conjuncts : List (List RecordId)
  /-- The lists that it adds to a disjunction, if every operand has one. -/
  disjuncts : Option (List (List RecordId))

namespace Outcome

/--
A subplan that continues no chain.
-/
def single (ids : Option (List RecordId)) : Outcome :=
  ⟨ids, ids.toList, ids.map ([·])⟩

def ofConjuncts (lists : List (List RecordId)) : Outcome :=
  let ids := match lists with
    | [] => none
    | [list] => some list
    | lists => some (IdList.intersectAll lists)
  ⟨ids, lists, ids.map ([·])⟩

def ofDisjuncts (lists : Option (List (List RecordId))) : Outcome :=
  let ids := lists.map IdList.unionAll
  ⟨ids, ids.toList, lists⟩

end Outcome

/--
Evaluate a plan whose literals are keys. Chains of conjunctions are intersected all at once, and
chains of disjunctions united all at once.
-/
def outcome (index : Index) : Plan Gram → Outcome
  | .and l r => .ofConjuncts ((l.outcome index).conjuncts ++ (r.outcome index).conjuncts)
  | .or l r =>
    .ofDisjuncts <|
      match (l.outcome index).disjuncts, (r.outcome index).disjuncts with
      | some left, some right => some (left ++ right)
      | _, _ => none
  | .literal key => .single (some (index.postingList key))
  | .null => .single none

/--
The candidate records of a plan of keys in ascending order. `none` means that the index gives no
help and every record must be scanned.
-/
def evaluate (index : Index) (plan : Plan Gram) : Option (List RecordId) :=
  (plan.outcome index).ids

end GramIndex.Plan
