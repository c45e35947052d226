import GramIndex.Selection
import GramIndex.Shard

/-!
This module contains the selection of index keys by a pool of workers. In each pass every worker
counts the grams of one shard of the records into a shared tally, and then sorts one shard of the
counted grams.
-/

namespace GramIndex

/--
An order in which the counts of several workers reach a shared tally: some order of all of them.
-/
structure Arrival where
  order : List (List Gram) → List Gram
  perm : ∀ runs, (order runs).Perm runs.flatten

/--
One worker after the other.
-/
def Arrival.inTurn : Arrival :=
  ⟨List.flatten, fun _ => .refl _⟩

namespace Selector

/--
Count the grams that are visited in each record, over the shards of the records.
-/
def countSharded (records : List Gram) (pool : Pool) (arrival : Arrival)
    (visit : Gram → List Gram) : Tally :=
  Tally.empty.bumpAll <| arrival.order <| pool.mapShards records.length fun shard =>
    (shard.slice records).flatMap visit

/--
Sort the counted grams that are to be kept, one shard of the counted grams at a time.
-/
def splitSharded (s : Selector) (total : Nat) (pool : Pool) (keep : Gram → Bool)
    (counts : List (Gram × Nat)) : Split :=
  let parts := pool.mapShards counts.length fun shard =>
    s.split total ((shard.slice counts).filter fun (gram, _) => keep gram)
  ⟨parts.flatMap Split.keys, parts.flatMap Split.expand⟩

/--
Count and sort the extensions of length `k` with a pool of workers.
-/
def passSharded (s : Selector) (records : List Gram) (pool : Pool) (arrival : Arrival) (k : Nat)
    (expand : List Gram) : Split :=
  let expand := Std.HashSet.ofList expand
  if k ≤ 2 then
    let counts := (countSharded records pool arrival (grams k)).entries
    s.splitSharded records.length pool (fun gram => gram.dropLast ∈ expand) counts
  else
    let counts := (countSharded records pool arrival (extensions expand k)).entries
    s.splitSharded records.length pool (fun _ => true) counts

/--
The keys for a dataset with the given records, selected by a pool of workers. `arrivals` gives the
order in which counts arrive in the pass for each length; the keys do not depend on it.
-/
def selectParallel (s : Selector) (records : List Gram) (pool : Pool)
    (arrivals : Nat → Arrival) : KeySet :=
  let step k expand := s.passSharded records pool (arrivals k) k expand
  s.refine (s.grow step 1 ∅ [[]])

end Selector

end GramIndex
