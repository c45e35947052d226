import GramIndex.Gram

/-!
This module contains the byte order of grams: sorting, and dropping repeats from sorted grams.
-/

namespace GramIndex.Gram

/--
Keep one of each run of equal grams.
-/
def dropRepeats : List Gram → List Gram
  | [] => []
  | [a] => [a]
  | a :: b :: rest => if a = b then dropRepeats (b :: rest) else a :: dropRepeats (b :: rest)

@[simp]
theorem mem_dropRepeats {g : Gram} {gs : List Gram} : g ∈ dropRepeats gs ↔ g ∈ gs := by
  fun_induction dropRepeats gs with
  | case1 | case2 => rfl
  | case3 b rest ih => simp [ih]
  | case4 a b rest hne ih =>
    rw [List.mem_cons, ih, ← List.mem_cons]

theorem dropRepeats_sorted {gs : List Gram} (h : gs.Pairwise (· ≤ ·)) :
    (dropRepeats gs).Pairwise (· < ·) := by
  fun_induction dropRepeats gs with
  | case1 | case2 => simp
  | case3 b rest ih => exact ih (List.pairwise_cons.1 h).2
  | case4 a b rest hne ih =>
    have h := List.pairwise_cons.1 h
    refine List.pairwise_cons.2 ⟨?_, ih h.2⟩
    intro g hg
    rw [mem_dropRepeats] at hg
    refine Decidable.byContradiction fun hlt => hne ?_
    have hga : g ≤ a := List.not_lt.1 hlt
    have hbg : b ≤ g := by
      rcases List.mem_cons.1 hg with rfl | hg
      · exact List.le_refl _
      · exact (List.pairwise_cons.1 h.2).1 g hg
    exact List.le_antisymm (h.1 b (List.mem_cons_self ..)) (List.le_trans hbg hga)

/--
Put grams in ascending byte order.
-/
def sort (gs : List Gram) : List Gram :=
  gs.mergeSort fun a b => a ≤ b

@[simp]
theorem mem_sort {g : Gram} {gs : List Gram} : g ∈ sort gs ↔ g ∈ gs := by
  simp [sort]

theorem sort_sorted (gs : List Gram) : (sort gs).Pairwise (· ≤ ·) := by
  have trans (a b c : Gram) (hab : decide (a ≤ b)) (hbc : decide (b ≤ c)) : decide (a ≤ c) :=
    decide_eq_true (List.le_trans (of_decide_eq_true hab) (of_decide_eq_true hbc))
  have total (a b : Gram) : (decide (a ≤ b) || decide (b ≤ a)) = true := by
    simpa using List.le_total a b
  exact (List.pairwise_mergeSort trans total gs).imp of_decide_eq_true

end GramIndex.Gram
