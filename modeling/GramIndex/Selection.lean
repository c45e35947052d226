import GramIndex.Config
import GramIndex.KeySet
import GramIndex.Tally
import Std.Data.HashSet

/-!
This module contains the selection of index keys. Grams are grown one byte at a time: a gram becomes
a key at the first length at which few enough records contain it, and otherwise it is only extended.
A key is never extended, which keeps the keys prefix-free.
-/

namespace GramIndex

structure Selector where
  threshold : Float
  upperK : Nat
  suffixFree : Bool
  maxKeys : Option Nat

/--
Grams sorted by whether they are selective: the ones that are become keys, the others are extended.
-/
structure Split where
  keys : List Gram
  expand : List Gram

namespace Selector

def ofConfig (c : Config) : Except ConfigError Selector :=
  match c.validate with
  | .error e => .error e
  | .ok () => .ok ⟨c.threshold, c.upperK.toNat, c.suffixFree, c.maxKeys.map UInt64.toNat⟩

/--
Whether a gram that `count` of `total` records contain may be a key.
-/
def isSelective (s : Selector) (count total : Nat) : Bool :=
  Float.ofNat count / Float.ofNat total ≤ s.threshold

def split (s : Selector) (total : Nat) (counts : List (Gram × Nat)) : Split :=
  let (keys, expand) := counts.partition fun (_, count) => s.isSelective count total
  ⟨keys.map Prod.fst, expand.map Prod.fst⟩

/--
Whether enough keys are selected to stop exploring longer grams.
-/
def atCapacity (s : Selector) (keys : KeySet) : Bool :=
  match s.maxKeys with
  | some bound => bound ≤ keys.size
  | none => false

/--
Select keys of the lengths from `k` on, given the keys of smaller lengths and the grams of length
`k - 1` to extend. `step` counts and sorts their extensions of length `k`. The bound on the number
of keys is looked at from length three on.
-/
def grow (s : Selector) (step : Nat → List Gram → Split) (k : Nat) (keys : KeySet)
    (expand : List Gram) : KeySet :=
  if k ≤ s.upperK ∧ expand ≠ [] ∧ ¬ (3 ≤ k ∧ s.atCapacity keys) then
    let sorted := step k expand
    s.grow step (k + 1) (keys.insertAll sorted.keys) sorted.expand
  else
    keys
termination_by s.upperK + 1 - k

/--
Drop keys that end with another one, if the selection asks for it.
-/
def refine (s : Selector) (keys : KeySet) : KeySet :=
  if s.suffixFree then keys.suffixFree else keys

/--
The distinct grams of length `k` in a record.
-/
def grams (k : Nat) (record : Gram) : List Gram :=
  (KeySet.ofList (record.windows k)).toList

/--
The distinct grams of length `k` in a record that extend one of the given grams by a byte.
-/
def extensions (expand : Std.HashSet Gram) (k : Nat) (record : Gram) : List Gram :=
  (KeySet.ofList ((record.windows k).filter fun gram => gram.dropLast ∈ expand)).toList

/--
Count in how many records each extension of length `k` occurs, and sort the extensions. Grams of one
byte and of two are all counted, before it is known which of them are extensions.
-/
def pass (s : Selector) (records : List Gram) (k : Nat) (expand : List Gram) : Split :=
  let expand := Std.HashSet.ofList expand
  if k ≤ 2 then
    let counts := (Tally.ofList (records.flatMap (grams k))).entries
    s.split records.length (counts.filter fun (gram, _) => gram.dropLast ∈ expand)
  else
    s.split records.length (Tally.ofList (records.flatMap (extensions expand k))).entries

/--
The keys for a dataset with the given records. Growth starts from the empty gram.
-/
def select (s : Selector) (records : List Gram) : KeySet :=
  s.refine (s.grow (s.pass records) 1 ∅ [[]])

end Selector

end GramIndex
