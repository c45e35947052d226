import GramIndex.Dataset

/-!
This module contains the set algebra of record id lists. All operations are merges that expect their
lists in ascending order; ids that repeat within a list are collapsed on the way.
-/

namespace GramIndex.IdList

def intersect (left right : List RecordId) : List RecordId :=
  go none left right
where
  /-- `last` is the last id that was found in both lists. -/
  go (last : Option RecordId) : List RecordId → List RecordId → List RecordId
    | a :: left, b :: right =>
      if a < b then
        go last left (b :: right)
      else if b < a then
        go last (a :: left) right
      else if last = some a then
        go last left right
      else
        a :: go (some a) left right
    | _, _ => []
  termination_by left right => left.length + right.length

/--
Drop the ids at the start of each run of equal ids but one, and those at the start of the list that
equal `last`.
-/
def collapse (last : Option RecordId) : List RecordId → List RecordId
  | [] => []
  | a :: rest => if last = some a then collapse last rest else a :: collapse (some a) rest

def union (left right : List RecordId) : List RecordId :=
  collapse none (merge left right)
where
  /-- The ids of both lists, an id that stands at the head of both at the same time once. -/
  merge : List RecordId → List RecordId → List RecordId
    | a :: left, b :: right =>
      if a < b then
        a :: merge left (b :: right)
      else if b < a then
        b :: merge (a :: left) right
      else
        a :: merge left right
    | left, [] => left
    | [], right => right
  termination_by left right => left.length + right.length

/--
The ids that are in all lists, and none if there are no lists. The shortest lists come first, so
that what is left to intersect is short from the start, and once nothing is left the other lists are
not looked at.
-/
def intersectAll (lists : List (List RecordId)) : List RecordId :=
  match lists.mergeSort (fun a b => a.length ≤ b.length) with
  | [] => []
  | first :: rest => go first rest
where
  go (common : List RecordId) : List (List RecordId) → List RecordId
    | [] => common
    | list :: rest => if common.isEmpty then common else go (intersect common list) rest

def unionAll (lists : List (List RecordId)) : List RecordId :=
  lists.foldl union []

end GramIndex.IdList
