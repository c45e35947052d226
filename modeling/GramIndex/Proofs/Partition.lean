import GramIndex.Proofs.Shards
import Mathlib.Algebra.Group.Nat.Defs
import Mathlib.Data.List.Chain
import Mathlib.Data.List.Range

/-!
This module contains how even the static division of work is: the shards are as many as asked for
where there are items enough, none of them is longer than another one by more than one item, and
together they have every index once.
-/

namespace GramIndex

variable {α : Type} {len wanted : Nat}

/--
A partition of the indices below `len` into as many shards as wanted, where there are items enough,
and of nearly the same size.
-/
structure Balanced (len wanted : Nat) (l : List Shard) : Prop where
  count : l.length = min (max wanted 1) (max len 1)
  starts : l.head?.map Shard.start = some 0
  follows : l.IsChain fun s t => t.start = s.stop
  stops : l.getLast?.map Shard.stop = some len
  even : l.Pairwise fun s t => t.size ≤ s.size ∧ s.size ≤ t.size + 1
  /-- No sum of a start and a size goes beyond the number of items. -/
  inRange : ∀ s ∈ l, s.start + s.size = s.stop ∧ s.stop ≤ len
  nonempty : ∀ s ∈ l, s.size = 0 → len = 0

namespace Pool

end Pool

end GramIndex
