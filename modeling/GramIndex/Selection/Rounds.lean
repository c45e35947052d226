import GramIndex.Selection
import GramIndex.Tally.Shared

/-!
This module contains the selection of index keys round by round: a first round counts the grams of
one byte and of two at once, and each further round the grams of one greater length. Counters have
32 bits, and one set serves all records to tell which grams of a record were counted before.
-/

namespace GramIndex

/--
An order in which counters are gone through, which may be any order of them.
-/
structure Traversal where
  order : List (Gram × UInt32) → List (Gram × UInt32)
  perm : ∀ entries, (order entries).Perm entries

namespace Selector

/--
Sort the counted grams that are to be kept.
-/
def splitCounters (s : Selector) (total : Nat) (traversal : Traversal) (keep : Gram → Bool)
    (counters : Counters) : Split :=
  s.split total <| ((traversal.order counters.entries).filter fun (gram, _) => keep gram).map
    fun (gram, count) => (gram, count.toNat)

/--
Count the distinct bytes of each record, and its distinct pairs of bytes.
-/
def countUniBigrams (records : List Gram) : Counters × Counters :=
  records.foldl
    (fun (unigrams, bigrams) record =>
      (unigrams.incrementAll (record.map fun b => [b]).eraseDups,
        bigrams.incrementAll (record.windows 2).eraseDups))
    (.empty, .empty)

/--
The grams that are wanted and not seen before, each at its first place, and what is seen after them.
-/
def visitNew (wanted : Gram → Bool) (seen : Std.HashSet Gram) :
    List Gram → List Gram × Std.HashSet Gram
  | [] => ([], seen)
  | gram :: rest =>
    if wanted gram && !seen.contains gram then
      let (visits, seen) := visitNew wanted (seen.insert gram) rest
      (gram :: visits, seen)
    else
      visitNew wanted seen rest

/--
What is left of a set that is cleared.
-/
def cleared (_seen : Std.HashSet Gram) : Std.HashSet Gram :=
  ∅

/--
The distinct grams of length `k` in a record that extend one of the given grams by a byte. The set
that tells them apart is cleared first.
-/
def visitExtensions (expand : Std.HashSet Gram) (k : Nat) (seen : Std.HashSet Gram)
    (record : Gram) : List Gram × Std.HashSet Gram :=
  visitNew (fun gram => gram.dropLast ∈ expand) (cleared seen) (record.windows k)

def countExtensions (records : List Gram) (expand : Std.HashSet Gram) (k : Nat) : Counters :=
  let (counters, _) := records.foldl
    (fun (counters, seen) record =>
      let (visits, seen) := visitExtensions expand k seen record
      (counters.incrementAll visits, seen))
    (.empty, ∅)
  counters

/--
The keys of one byte and of two, and the grams of two bytes to extend. The pairs are only sorted if
they may be keys and some byte is not one. `sortBigrams` keeps the pairs whose first byte is as
given.
-/
def firstPass (s : Selector) (unigrams : Split) (sortBigrams : (UInt8 → Bool) → Split) :
    KeySet × List Gram :=
  let keys := KeySet.ofList unigrams.keys
  if 2 ≤ s.upperK ∧ unigrams.expand ≠ [] then
    let heads := unigrams.expand.filterMap List.head?
    let bigrams := sortBigrams heads.contains
    (keys.insertAll bigrams.keys, bigrams.expand)
  else
    (keys, [])

/--
The keys for a dataset with the given records, and none for no records.
-/
def selectInRounds (s : Selector) (traversal : Traversal) (records : List Gram) : KeySet :=
  if records.isEmpty then
    ∅
  else
    let total := records.length
    let (unigrams, bigrams) := countUniBigrams records
    let sortBigrams isHead := s.splitCounters total traversal (·.head?.any isHead) bigrams
    let (keys, expand) :=
      s.firstPass (s.splitCounters total traversal (fun _ => true) unigrams) sortBigrams
    let step k expand :=
      s.splitCounters total traversal (fun _ => true) (countExtensions records (.ofList expand) k)
    s.refine (s.grow step 3 keys expand)

end Selector

end GramIndex
