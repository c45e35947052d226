import GramIndex.Gram.Order

/-!
This module contains tallies: how often each gram was counted, kept in byte order of the grams.
-/

namespace GramIndex

/--
Grams with their counts, each gram once and in ascending byte order.
-/
structure Tally where
  entries : List (Gram × Nat)
  sorted : (entries.map Prod.fst).Pairwise (· < ·)

namespace Tally

/--
Add one to the count of a gram, at its place in byte order.
-/
def bumpSorted (gram : Gram) : List (Gram × Nat) → List (Gram × Nat)
  | [] => [(gram, 1)]
  | (g, n) :: rest =>
    if gram < g then
      (gram, 1) :: (g, n) :: rest
    else if gram = g then
      (g, n + 1) :: rest
    else
      (g, n) :: bumpSorted gram rest

theorem mem_map_bumpSorted {gram g : Gram} {entries : List (Gram × Nat)} :
    g ∈ (bumpSorted gram entries).map Prod.fst ↔ g = gram ∨ g ∈ entries.map Prod.fst := by
  induction entries with
  | nil => simp [bumpSorted]
  | cons e rest ih =>
    unfold bumpSorted
    split
    · simp
    · split
      · rename_i h
        simp [h]
      · rw [List.map_cons, List.mem_cons, ih, List.map_cons, List.mem_cons]
        grind

theorem bumpSorted_sorted {gram : Gram} {entries : List (Gram × Nat)}
    (h : (entries.map Prod.fst).Pairwise (· < ·)) :
    ((bumpSorted gram entries).map Prod.fst).Pairwise (· < ·) := by
  induction entries with
  | nil => simp [bumpSorted]
  | cons e rest ih =>
    rw [List.map_cons, List.pairwise_cons] at h
    unfold bumpSorted
    split
    · rename_i hlt
      simp only [List.map_cons]
      refine List.pairwise_cons.2 ⟨?_, List.pairwise_cons.2 h⟩
      intro g hg
      rcases List.mem_cons.1 hg with rfl | hg
      · exact hlt
      · exact List.lt_trans hlt (h.1 g hg)
    · split
      · simp only [List.map_cons]
        exact List.pairwise_cons.2 h
      · rename_i hlt hne
        simp only [List.map_cons]
        refine List.pairwise_cons.2 ⟨?_, ih h.2⟩
        intro g hg
        rcases mem_map_bumpSorted.1 hg with rfl | hg
        · rcases Decidable.em (e.1 < g) with hk | hk
          · exact hk
          · exact absurd (List.le_antisymm (List.not_lt.1 hk) (List.not_lt.1 hlt)) hne
        · exact h.1 g hg

theorem nil_sorted : (([] : List (Gram × Nat)).map Prod.fst).Pairwise (· < ·) :=
  List.Pairwise.nil

def empty : Tally :=
  ⟨[], nil_sorted⟩

def bump (t : Tally) (gram : Gram) : Tally :=
  ⟨bumpSorted gram t.entries, bumpSorted_sorted t.sorted⟩

/--
Count every gram of a list, one after the other.
-/
def bumpAll (t : Tally) (grams : List Gram) : Tally :=
  grams.foldl bump t

def bumpHead : List (Gram × Nat) → List (Gram × Nat)
  | [] => []
  | (g, n) :: rest => (g, n + 1) :: rest

/--
The lengths of the runs of equal grams.
-/
def runs : List Gram → List (Gram × Nat)
  | [] => []
  | [g] => [(g, 1)]
  | a :: b :: rest => if a = b then bumpHead (runs (b :: rest)) else (a, 1) :: runs (b :: rest)

@[simp]
theorem map_bumpHead (entries : List (Gram × Nat)) :
    (bumpHead entries).map Prod.fst = entries.map Prod.fst := by
  cases entries <;> rfl

theorem map_runs (grams : List Gram) : (runs grams).map Prod.fst = Gram.dropRepeats grams := by
  fun_induction Gram.dropRepeats grams <;> simp_all [runs]

/--
Count every gram of a list at once: the runs of the sorted list are the counts.
-/
def ofList (grams : List Gram) : Tally :=
  ⟨runs (Gram.sort grams), by
    rw [map_runs]
    exact Gram.dropRepeats_sorted (Gram.sort_sorted grams)⟩

end Tally

end GramIndex
