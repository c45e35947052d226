import GramIndex.Proofs.Grams
import GramIndex.Tally
import Mathlib.Data.List.Sort

/-!
This module contains what tallies count: a tally lists each counted gram with its number of
occurrences, whether the grams were counted one by one or all at once.
-/

namespace GramIndex.Tally

/--
The entries are the grams of a list with how often each of them occurs.
-/
def Counts (t : Tally) (grams : List Gram) : Prop :=
  ∀ g n, (g, n) ∈ t.entries ↔ 0 < n ∧ n = grams.count g

theorem Counts.perm {t : Tally} {grams others : List Gram} (h : t.Counts grams)
    (hperm : grams.Perm others) : t.Counts others := by
  intro g n
  rw [h, hperm.count_eq]

/--
Entries in byte order of their grams are determined by what they are.
-/
theorem entries_unique {α : Type} {a b : List (Gram × α)} (ha : a.Pairwise fun d e => d.1 < e.1)
    (hb : b.Pairwise fun d e => d.1 < e.1) (h : ∀ e, e ∈ a ↔ e ∈ b) : a = b := by
  have : Std.Irrefl fun d e : Gram × α => d.1 < e.1 := ⟨fun d => List.lt_irrefl d.1⟩
  have : Std.Antisymm fun d e : Gram × α => d.1 < e.1 :=
    ⟨fun d e hde hed => absurd (List.lt_trans hde hed) (List.lt_irrefl d.1)⟩
  exact ha.eq_of_mem_iff hb h

theorem Counts.unique {t u : Tally} {grams : List Gram} (ht : t.Counts grams)
    (hu : u.Counts grams) : t = u := by
  have hentries : t.entries = u.entries := by
    apply entries_unique (List.pairwise_map.1 t.sorted) (List.pairwise_map.1 u.sorted)
    intro (g, n)
    rw [ht, hu]
  cases t
  cases u
  simp_all

theorem counts_empty : empty.Counts [] := by
  intro g n
  simp only [empty, List.not_mem_nil, List.count_nil, false_iff, not_and]
  omega

theorem mem_bumpSorted {gram g : Gram} {n : Nat} {entries : List (Gram × Nat)}
    (hsorted : (entries.map Prod.fst).Pairwise (· < ·)) :
    (g, n) ∈ bumpSorted gram entries ↔
      g ≠ gram ∧ (g, n) ∈ entries ∨
      g = gram ∧
        ((∃ m, (gram, m) ∈ entries ∧ n = m + 1) ∨ gram ∉ entries.map Prod.fst ∧ n = 1) := by
  induction entries with
  | nil => simp [bumpSorted]
  | cons e rest ih =>
    obtain ⟨h, m⟩ := e
    rw [List.map_cons, List.pairwise_cons] at hsorted
    have hirrefl := List.lt_irrefl gram
    -- The head is the least gram, so a gram up to it stands nowhere further on.
    have hrest (hle : gram ≤ h) (k : Nat) : (gram, k) ∉ rest := by
      intro hmem
      exact hle (hsorted.1 gram (List.mem_map_of_mem (f := Prod.fst) hmem))
    unfold bumpSorted
    split
    · next hlt =>
      have := hrest (List.le_of_lt hlt)
      have hne : gram ≠ h := by
        intro heq
        rw [← heq] at hlt
        exact hirrefl hlt
      grind
    · split
      · next heq =>
        subst heq
        have := hrest (List.le_refl gram)
        grind
      · have := ih hsorted.2
        grind

theorem Counts.bump {t : Tally} {grams : List Gram} (h : t.Counts grams) (gram : Gram) :
    (t.bump gram).Counts (gram :: grams) := by
  intro g n
  unfold Tally.bump
  rw [mem_bumpSorted t.sorted, List.count_cons]
  have hnew : gram ∉ t.entries.map Prod.fst ↔ grams.count gram = 0 := by
    constructor
    · intro hnot
      apply Decidable.byContradiction
      intro hpos
      apply hnot
      exact List.mem_map_of_mem (f := Prod.fst) ((h gram _).2 ⟨Nat.pos_of_ne_zero hpos, rfl⟩)
    · intro hzero hmem
      obtain ⟨⟨g, m⟩, hentry, rfl⟩ := List.mem_map.1 hmem
      have := (h g m).1 hentry
      simp only at hzero
      omega
  rw [hnew]
  simp only [h _ _]
  by_cases heq : g = gram
  · subst heq
    simp only [ne_eq, not_true_eq_false, false_and, true_and, false_or, beq_self_eq_true, if_true]
    constructor
    · intro hcase
      cases hcase with
      | inl hold =>
        obtain ⟨m, hm, rfl⟩ := hold
        omega
      | inr hnew => omega
    · rintro ⟨hpos, hn⟩
      by_cases hzero : grams.count g = 0
      · right
        omega
      · left
        exact ⟨grams.count g, ⟨by omega, rfl⟩, hn⟩
  · have hbeq : (gram == g) = false := beq_eq_false_iff_ne.2 (Ne.symm heq)
    simp [heq, hbeq]

theorem Counts.bumpAll {t : Tally} {grams : List Gram} (h : t.Counts grams) (more : List Gram) :
    (t.bumpAll more).Counts (more ++ grams) := by
  unfold Tally.bumpAll
  induction more generalizing t grams with
  | nil => exact h
  | cons gram more ih =>
    rw [List.foldl_cons]
    apply (ih (h.bump gram)).perm
    exact List.perm_middle

theorem counts_bumpAll_empty (grams : List Gram) : (empty.bumpAll grams).Counts grams := by
  have h := counts_empty.bumpAll grams
  rw [List.append_nil] at h
  exact h

theorem runs_eq_map_count {grams : List Gram} (hsorted : grams.Pairwise (· ≤ ·)) :
    runs grams = (Gram.dropRepeats grams).map fun g => (g, grams.count g) := by
  fun_induction Gram.dropRepeats grams with
  | case1 => rfl
  | case2 a => simp [runs]
  | case3 b rest ih =>
    rw [List.pairwise_cons] at hsorted
    rw [runs, if_pos rfl, ih hsorted.2]
    have hstrict := Gram.dropRepeats_sorted hsorted.2
    -- The run goes on, so only the count of its gram changes.
    cases hdrop : Gram.dropRepeats (b :: rest) with
    | nil => rfl
    | cons c others =>
      have hcb : c = b := by
        have hle : b ≤ c := by
          have hc : c ∈ b :: rest := by
            rw [← Gram.mem_dropRepeats, hdrop]
            exact List.mem_cons_self
          exact hsorted.1 c hc
        apply List.le_antisymm _ hle
        have hb : b ∈ c :: others := by
          rw [← hdrop, Gram.mem_dropRepeats]
          exact List.mem_cons_self
        rw [hdrop, List.pairwise_cons] at hstrict
        cases List.mem_cons.1 hb with
        | inl heq =>
          rw [heq]
          exact List.le_refl c
        | inr hb => exact List.le_of_lt (hstrict.1 b hb)
      subst hcb
      rw [List.map_cons, bumpHead, List.map_cons, List.count_cons_self (l := c :: rest)]
      congr 1
      apply List.map_congr_left
      intro g hg
      rw [hdrop, List.pairwise_cons] at hstrict
      have hne : c ≠ g := by
        intro heq
        have hlt := hstrict.1 g hg
        rw [heq] at hlt
        exact List.lt_irrefl g hlt
      rw [List.count_cons_of_ne hne (l := c :: rest)]
  | case4 a b rest hne ih =>
    rw [List.pairwise_cons] at hsorted
    rw [runs, if_neg hne, ih hsorted.2, List.map_cons]
    have hnot : a ∉ b :: rest := by
      intro hmem
      apply hne
      apply List.le_antisymm (hsorted.1 b List.mem_cons_self)
      cases List.mem_cons.1 hmem with
      | inl heq =>
        rw [heq]
        exact List.le_refl b
      | inr hmem => exact (List.pairwise_cons.1 hsorted.2).1 a hmem
    congr 1
    · rw [List.count_cons_self, List.count_eq_zero_of_not_mem hnot]
    · apply List.map_congr_left
      intro g hg
      rw [Gram.mem_dropRepeats] at hg
      have hag : a ≠ g := by
        intro heq
        rw [heq] at hnot
        exact hnot hg
      rw [List.count_cons_of_ne hag]

theorem counts_ofList (grams : List Gram) : (ofList grams).Counts grams := by
  intro g n
  have hperm : (Gram.sort grams).Perm grams := List.mergeSort_perm ..
  unfold ofList
  simp only [runs_eq_map_count (Gram.sort_sorted grams), List.mem_map, Prod.mk.injEq,
    Gram.mem_dropRepeats, Gram.mem_sort, hperm.count_eq]
  constructor
  · rintro ⟨h, hmem, rfl, rfl⟩
    exact ⟨List.count_pos_iff.2 hmem, rfl⟩
  · rintro ⟨hpos, heq⟩
    refine ⟨g, ?_, rfl, heq.symm⟩
    rw [← List.count_pos_iff]
    omega

end GramIndex.Tally
