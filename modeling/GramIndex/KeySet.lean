import GramIndex.Gram.Order

/-!
This module contains finite sets of index keys, kept in byte order, with the two refinements that
an index cares about: being prefix-free, and keeping only keys that end with no other key.
-/

namespace GramIndex

/--
A set of keys, listed once each in ascending byte order.
-/
structure KeySet where
  toList : List Gram
  sorted : toList.Pairwise (· < ·)
  deriving DecidableEq

namespace KeySet

def empty : KeySet :=
  ⟨[], List.Pairwise.nil⟩

instance : EmptyCollection KeySet := ⟨empty⟩

instance : Inhabited KeySet := ⟨empty⟩

instance : Membership Gram KeySet := ⟨fun keys key => key ∈ keys.toList⟩

instance {key : Gram} {keys : KeySet} : Decidable (key ∈ keys) :=
  inferInstanceAs (Decidable (key ∈ keys.toList))

/--
The set of the keys in a list, which may repeat keys and come in any order.
-/
def ofList (keys : List Gram) : KeySet :=
  ⟨Gram.dropRepeats (Gram.sort keys), Gram.dropRepeats_sorted (Gram.sort_sorted keys)⟩

def insertAll (keys : KeySet) (more : List Gram) : KeySet :=
  ofList (keys.toList ++ more)

def size (keys : KeySet) : Nat :=
  keys.toList.length

/--
The length of the longest key, zero for the empty set.
-/
def longest (keys : KeySet) : Nat :=
  keys.toList.foldl (fun longest key => max longest key.length) 0

@[simp]
theorem mem_toList {g : Gram} {keys : KeySet} : g ∈ keys.toList ↔ g ∈ keys := Iff.rfl

@[simp]
theorem mem_empty {g : Gram} : ¬ g ∈ empty := by
  simp [empty, ← mem_toList]

@[simp]
theorem mem_ofList {g : Gram} {keys : List Gram} : g ∈ ofList keys ↔ g ∈ keys := by
  simp [ofList, ← mem_toList]

@[simp]
theorem mem_insertAll {g : Gram} {keys : KeySet} {more : List Gram} :
    g ∈ keys.insertAll more ↔ g ∈ keys ∨ g ∈ more := by
  simp [insertAll]

/--
No key is a proper prefix of another key.
-/
def PrefixFree (keys : KeySet) : Prop :=
  ∀ a ∈ keys, ∀ b ∈ keys, a <+: b → a = b

/--
Whether the set is prefix-free. Looking at neighbours is enough: in byte order a key is directly
followed by one of its extensions, if it has any.
-/
def isPrefixFree (keys : KeySet) : Bool :=
  (keys.toList.zip keys.toList.tail).all fun (a, b) => !a.isPrefixOf b

/--
Drop from a list in byte order each gram that extends the last gram kept before it.
-/
def dropExtensions : List Gram → List Gram
  | [] => []
  | g :: gs => g :: go g gs
where
  go (kept : Gram) : List Gram → List Gram
    | [] => []
    | g :: gs =>
      if kept.length < g.length && kept.isPrefixOf g then
        go kept gs
      else
        g :: go g gs

/--
The keys that end with no other key. The reversed keys in byte order have each key after the
shortest kept key that it ends with and before any key that it does not.
-/
def suffixFree (keys : KeySet) : KeySet :=
  let reversed := ofList (keys.toList.map List.reverse)
  ofList ((dropExtensions reversed.toList).map List.reverse)

end KeySet

end GramIndex
