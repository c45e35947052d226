import GramIndex.IdList
import Mathlib.Data.List.Sort

/-!
This module contains the set meaning of the operations on id lists: on ascending lists, which may
repeat ids, the results are strictly ascending and have the ids that they should have, so that they
do not depend on how the lists came about or in which order they are given.
-/

namespace GramIndex.IdList

variable {left right list : List RecordId} {last : Option RecordId}

theorem head_le {a x : RecordId} (h : (a :: list).Pairwise (· ≤ ·)) (hx : x ∈ a :: list) :
    a ≤ x := by
  cases List.mem_cons.1 hx with
  | inl heq => exact Nat.le_of_eq heq.symm
  | inr hx => exact (List.pairwise_cons.1 h).1 x hx

/--
No id of a list comes before the id that was found last.
-/
def After (last : Option RecordId) (list : List RecordId) : Prop :=
  ∀ a, last = some a → ∀ x ∈ list, a ≤ x

theorem after_none : After none list := by
  intro a ha
  simp at ha

theorem After.tail {a : RecordId} (h : After last (a :: list)) : After last list := by
  intro b hb x hx
  exact h b hb x (List.mem_cons_of_mem a hx)

theorem after_head {a : RecordId} (h : (a :: list).Pairwise (· ≤ ·)) : After (some a) list := by
  intro b hb x hx
  rw [← Option.some.inj hb]
  exact (List.pairwise_cons.1 h).1 x hx

theorem After.ne_of_mem {a x : RecordId} (h : After last (a :: list))
    (hsorted : (a :: list).Pairwise (· ≤ ·)) (hx : x ∈ list) (ha : last ≠ some a) :
    last ≠ some x := by
  intro hlast
  have hxa : x ≤ a := h x hlast a List.mem_cons_self
  have hax : a ≤ x := (List.pairwise_cons.1 hsorted).1 x hx
  rw [Nat.le_antisymm hxa hax] at hlast
  exact ha hlast

theorem mem_intersect_go (hleft : left.Pairwise (· ≤ ·)) (hright : right.Pairwise (· ≤ ·))
    (hlast : After last left) {x : RecordId} :
    x ∈ intersect.go last left right ↔ x ∈ left ∧ x ∈ right ∧ last ≠ some x := by
  fun_induction intersect.go last left right with
  | case1 last a left b right hlt ih =>
    rw [ih (List.pairwise_cons.1 hleft).2 hright hlast.tail, List.mem_cons (b := a)]
    constructor
    · rintro ⟨hx, hrest⟩
      exact ⟨.inr hx, hrest⟩
    · rintro ⟨hx, hxr, hne⟩
      refine ⟨hx.resolve_left ?_, hxr, hne⟩
      -- The least id of the other list is greater.
      intro heq
      rw [heq] at hxr
      exact Nat.not_le_of_lt hlt (head_le hright hxr)
  | case2 last a left b right hle hlt ih =>
    rw [ih hleft (List.pairwise_cons.1 hright).2 hlast, List.mem_cons (b := b)]
    constructor
    · rintro ⟨hx, hxr, hne⟩
      exact ⟨hx, .inr hxr, hne⟩
    · rintro ⟨hx, hxr, hne⟩
      refine ⟨hx, hxr.resolve_left ?_, hne⟩
      intro heq
      rw [heq] at hx
      exact Nat.not_le_of_lt hlt (head_le hleft hx)
  | case3 a left b right hab hba ih =>
    have heq : a = b := Nat.le_antisymm (Nat.not_lt.1 hba) (Nat.not_lt.1 hab)
    subst heq
    rw [ih (List.pairwise_cons.1 hleft).2 (List.pairwise_cons.1 hright).2 hlast.tail]
    simp only [List.mem_cons, ne_eq, Option.some.injEq]
    constructor
    · rintro ⟨hx, hxr, hne⟩
      exact ⟨.inr hx, .inr hxr, hne⟩
    · rintro ⟨hx, hxr, hne⟩
      exact ⟨hx.resolve_left (Ne.symm hne), hxr.resolve_left (Ne.symm hne), hne⟩
  | case4 last a left b right hab hba hne ih =>
    have heq : a = b := Nat.le_antisymm (Nat.not_lt.1 hba) (Nat.not_lt.1 hab)
    subst heq
    rw [List.mem_cons,
      ih (List.pairwise_cons.1 hleft).2 (List.pairwise_cons.1 hright).2 (after_head hleft),
      List.mem_cons, List.mem_cons]
    by_cases hx : x = a
    · subst hx
      simp [hne]
    · simp only [hx, false_or, ne_eq, Option.some.injEq, Ne.symm hx, not_false_eq_true, and_true]
      constructor
      · rintro ⟨hxl, hxr⟩
        exact ⟨hxl, hxr, hlast.ne_of_mem hleft hxl hne⟩
      · rintro ⟨hxl, hxr, _⟩
        exact ⟨hxl, hxr⟩
  | case5 last left right hnil =>
    simp only [List.not_mem_nil, false_iff, not_and]
    intro hx hxr
    cases left with
    | nil => simp at hx
    | cons a left =>
      cases right with
      | nil => simp at hxr
      | cons b right => exact absurd rfl (hnil a left b right rfl)

theorem intersect_go_sorted (hleft : left.Pairwise (· ≤ ·)) (hright : right.Pairwise (· ≤ ·)) :
    (intersect.go last left right).Pairwise (· < ·) := by
  fun_induction intersect.go last left right with
  | case1 last a left b right hlt ih => exact ih (List.pairwise_cons.1 hleft).2 hright
  | case2 last a left b right hle hlt ih => exact ih hleft (List.pairwise_cons.1 hright).2
  | case3 a left b right hab hba ih =>
    exact ih (List.pairwise_cons.1 hleft).2 (List.pairwise_cons.1 hright).2
  | case4 last a left b right hab hba hne ih =>
    have hl := List.pairwise_cons.1 hleft
    have hr := List.pairwise_cons.1 hright
    rw [List.pairwise_cons]
    refine ⟨?_, ih hl.2 hr.2⟩
    intro x hx
    rw [mem_intersect_go hl.2 hr.2 (after_head hleft)] at hx
    have hne : a ≠ x := by
      intro heq
      rw [heq] at hx
      exact hx.2.2 rfl
    exact Nat.lt_of_le_of_ne (hl.1 x hx.1) hne
  | case5 => exact .nil

theorem mem_intersect (hleft : left.Pairwise (· ≤ ·)) (hright : right.Pairwise (· ≤ ·))
    {x : RecordId} : x ∈ intersect left right ↔ x ∈ left ∧ x ∈ right := by
  unfold intersect
  rw [mem_intersect_go hleft hright after_none]
  simp

theorem intersect_sorted (hleft : left.Pairwise (· ≤ ·)) (hright : right.Pairwise (· ≤ ·)) :
    (intersect left right).Pairwise (· < ·) :=
  intersect_go_sorted hleft hright

theorem mem_collapse (hsorted : list.Pairwise (· ≤ ·)) (hlast : After last list) {x : RecordId} :
    x ∈ collapse last list ↔ x ∈ list ∧ last ≠ some x := by
  fun_induction collapse last list with
  | case1 => simp
  | case2 a rest ih =>
    rw [ih (List.pairwise_cons.1 hsorted).2 hlast.tail, List.mem_cons]
    simp only [ne_eq, Option.some.injEq]
    constructor
    · rintro ⟨hx, hne⟩
      exact ⟨.inr hx, hne⟩
    · rintro ⟨hx, hne⟩
      exact ⟨hx.resolve_left (Ne.symm hne), hne⟩
  | case3 last a rest hne ih =>
    rw [List.mem_cons, ih (List.pairwise_cons.1 hsorted).2 (after_head hsorted), List.mem_cons]
    by_cases hx : x = a
    · subst hx
      simp [hne]
    · simp only [hx, false_or, ne_eq, Option.some.injEq, Ne.symm hx, not_false_eq_true, and_true]
      constructor
      · intro hmem
        exact ⟨hmem, hlast.ne_of_mem hsorted hmem hne⟩
      · intro h
        exact h.1

theorem collapse_sorted (hsorted : list.Pairwise (· ≤ ·)) :
    (collapse last list).Pairwise (· < ·) := by
  fun_induction collapse last list with
  | case1 => exact .nil
  | case2 a rest ih => exact ih (List.pairwise_cons.1 hsorted).2
  | case3 last a rest hne ih =>
    have h := List.pairwise_cons.1 hsorted
    rw [List.pairwise_cons]
    refine ⟨?_, ih h.2⟩
    intro x hx
    rw [mem_collapse h.2 (after_head hsorted)] at hx
    have hne : a ≠ x := by
      intro heq
      rw [heq] at hx
      exact hx.2 rfl
    exact Nat.lt_of_le_of_ne (h.1 x hx.1) hne

theorem mem_merge {x : RecordId} : x ∈ union.merge left right ↔ x ∈ left ∨ x ∈ right := by
  fun_induction union.merge left right with
  | case1 a left b right hlt ih =>
    rw [List.mem_cons, ih, List.mem_cons (b := a), or_assoc]
  | case2 a left b right hle hlt ih =>
    rw [List.mem_cons, ih, List.mem_cons (b := b), or_left_comm]
  | case3 a left b right hab hba ih =>
    have heq : a = b := Nat.le_antisymm (Nat.not_lt.1 hba) (Nat.not_lt.1 hab)
    subst heq
    rw [List.mem_cons, ih, List.mem_cons, List.mem_cons, or_or_distrib_left]
  | case4 left => simp
  | case5 right => simp

theorem merge_sorted (hleft : left.Pairwise (· ≤ ·)) (hright : right.Pairwise (· ≤ ·)) :
    (union.merge left right).Pairwise (· ≤ ·) := by
  fun_induction union.merge left right with
  | case1 a left b right hlt ih =>
    have hl := List.pairwise_cons.1 hleft
    rw [List.pairwise_cons]
    refine ⟨?_, ih hl.2 hright⟩
    intro x hx
    rw [mem_merge] at hx
    cases hx with
    | inl hx => exact hl.1 x hx
    | inr hx => exact Nat.le_trans (Nat.le_of_lt hlt) (head_le hright hx)
  | case2 a left b right hle hlt ih =>
    have hr := List.pairwise_cons.1 hright
    rw [List.pairwise_cons]
    refine ⟨?_, ih hleft hr.2⟩
    intro x hx
    rw [mem_merge] at hx
    cases hx with
    | inl hx => exact Nat.le_trans (Nat.le_of_lt hlt) (head_le hleft hx)
    | inr hx => exact hr.1 x hx
  | case3 a left b right hab hba ih =>
    have hl := List.pairwise_cons.1 hleft
    have hr := List.pairwise_cons.1 hright
    rw [List.pairwise_cons]
    refine ⟨?_, ih hl.2 hr.2⟩
    intro x hx
    rw [mem_merge] at hx
    cases hx with
    | inl hx => exact hl.1 x hx
    | inr hx => exact Nat.le_trans (Nat.not_lt.1 hba) (hr.1 x hx)
  | case4 left => exact hleft
  | case5 right => exact hright

theorem mem_union (hleft : left.Pairwise (· ≤ ·)) (hright : right.Pairwise (· ≤ ·))
    {x : RecordId} : x ∈ union left right ↔ x ∈ left ∨ x ∈ right := by
  unfold union
  rw [mem_collapse (merge_sorted hleft hright) after_none, mem_merge]
  simp

theorem union_sorted (hleft : left.Pairwise (· ≤ ·)) (hright : right.Pairwise (· ≤ ·)) :
    (union left right).Pairwise (· < ·) :=
  collapse_sorted (merge_sorted hleft hright)

theorem le_of_sorted (h : list.Pairwise (· < ·)) : list.Pairwise (· ≤ ·) :=
  h.imp Nat.le_of_lt

/--
The ids of a list are those that satisfy `P`, each of them once and in ascending order.
-/
structure Enumerates (list : List RecordId) (P : RecordId → Prop) : Prop where
  sorted : list.Pairwise (· < ·)
  mem_iff : ∀ id, id ∈ list ↔ P id

theorem Enumerates.unique {P : RecordId → Prop} (hleft : Enumerates left P)
    (hright : Enumerates right P) : left = right := by
  apply hleft.sorted.eq_of_mem_iff hright.sorted
  intro id
  rw [hleft.mem_iff, hright.mem_iff]

theorem enumerates_intersect (hleft : left.Pairwise (· ≤ ·)) (hright : right.Pairwise (· ≤ ·)) :
    Enumerates (intersect left right) fun id => id ∈ left ∧ id ∈ right where
  sorted := intersect_sorted hleft hright
  mem_iff _ := mem_intersect hleft hright

theorem enumerates_union (hleft : left.Pairwise (· ≤ ·)) (hright : right.Pairwise (· ≤ ·)) :
    Enumerates (union left right) fun id => id ∈ left ∨ id ∈ right where
  sorted := union_sorted hleft hright
  mem_iff _ := mem_union hleft hright

section Many

variable {lists : List (List RecordId)}

theorem enumerates_foldl_union {found : List RecordId} (hfound : found.Pairwise (· < ·))
    (h : ∀ list ∈ lists, list.Pairwise (· ≤ ·)) :
    Enumerates (lists.foldl union found) fun id => id ∈ found ∨ ∃ list ∈ lists, id ∈ list := by
  induction lists generalizing found with
  | nil => exact ⟨hfound, by simp⟩
  | cons first lists ih =>
    have hfirst := h first List.mem_cons_self
    have hrest : ∀ list ∈ lists, list.Pairwise (· ≤ ·) := by
      intro list hlist
      exact h list (List.mem_cons_of_mem first hlist)
    have hunion := enumerates_union (le_of_sorted hfound) hfirst
    have hfold := ih hunion.sorted hrest
    refine ⟨hfold.sorted, ?_⟩
    intro id
    rw [List.foldl_cons, hfold.mem_iff, hunion.mem_iff]
    simp [or_assoc]

theorem enumerates_unionAll (h : ∀ list ∈ lists, list.Pairwise (· ≤ ·)) :
    Enumerates (unionAll lists) fun id => ∃ list ∈ lists, id ∈ list := by
  simpa [unionAll] using enumerates_foldl_union .nil h

theorem mem_foldl_intersect {first : List RecordId} {x : RecordId}
    (hfirst : first.Pairwise (· ≤ ·)) (h : ∀ list ∈ lists, list.Pairwise (· ≤ ·)) :
    x ∈ lists.foldl intersect first ↔ x ∈ first ∧ ∀ list ∈ lists, x ∈ list := by
  induction lists generalizing first with
  | nil => simp
  | cons second lists ih =>
    have hsecond := h second List.mem_cons_self
    have hrest : ∀ list ∈ lists, list.Pairwise (· ≤ ·) := by
      intro list hlist
      exact h list (List.mem_cons_of_mem second hlist)
    rw [List.foldl_cons, ih (le_of_sorted (intersect_sorted hfirst hsecond)) hrest,
      mem_intersect hfirst hsecond]
    simp [and_assoc]

theorem foldl_intersect_sorted {first : List RecordId} (hfirst : first.Pairwise (· < ·))
    (h : ∀ list ∈ lists, list.Pairwise (· ≤ ·)) :
    (lists.foldl intersect first).Pairwise (· < ·) := by
  induction lists generalizing first with
  | nil => exact hfirst
  | cons second lists ih =>
    rw [List.foldl_cons]
    apply ih (intersect_sorted (le_of_sorted hfirst) (h second List.mem_cons_self))
    intro list hlist
    exact h list (List.mem_cons_of_mem second hlist)

theorem intersect_nil : intersect [] right = [] := by
  simp [intersect, intersect.go]

/--
Where nothing is in common any more, the lists that are left out would change nothing.
-/
theorem intersectAll_go_eq {common : List RecordId} :
    intersectAll.go common lists = lists.foldl intersect common := by
  induction lists generalizing common with
  | nil => rfl
  | cons first lists ih =>
    rw [intersectAll.go, List.foldl_cons, ← ih]
    split
    · next hempty =>
      rw [List.isEmpty_iff.1 hempty, intersect_nil]
      cases lists with
      | nil => rfl
      | cons second lists => rfl
    · rfl

theorem enumerates_intersectAll (h : ∀ list ∈ lists, list.Pairwise (· ≤ ·))
    (hmany : 2 ≤ lists.length) :
    Enumerates (intersectAll lists) fun id => ∀ list ∈ lists, id ∈ list := by
  have hperm : (lists.mergeSort fun a b => decide (a.length ≤ b.length)).Perm lists :=
    List.mergeSort_perm ..
  have hsorted : ∀ list ∈ lists.mergeSort fun a b => decide (a.length ≤ b.length),
      list.Pairwise (· ≤ ·) := by
    intro list hlist
    exact h list (hperm.mem_iff.1 hlist)
  have hlen := hperm.length_eq
  unfold intersectAll
  simp only [← hperm.mem_iff]
  cases hcase : lists.mergeSort fun a b => decide (a.length ≤ b.length) with
  | nil =>
    rw [hcase, List.length_nil] at hlen
    omega
  | cons first rest =>
    rw [hcase] at hsorted hlen
    have hfirst := hsorted first List.mem_cons_self
    have hrest : ∀ list ∈ rest, list.Pairwise (· ≤ ·) := by
      intro list hlist
      exact hsorted list (List.mem_cons_of_mem first hlist)
    simp only [intersectAll_go_eq]
    cases rest with
    | nil =>
      rw [List.length_singleton] at hlen
      omega
    | cons second rest =>
      constructor
      · simp only [List.foldl_cons]
        apply foldl_intersect_sorted (intersect_sorted hfirst (hrest second List.mem_cons_self))
        intro list hlist
        exact hrest list (List.mem_cons_of_mem second hlist)
      · intro x
        rw [mem_foldl_intersect hfirst hrest]
        exact (List.forall_mem_cons (p := fun list => x ∈ list)).symm

/--
The operations on lists in ascending order, with or without repeats, give the ids of the set that
they stand for, each once and in ascending order: the ids in both of two lists, in one of them, in
one of many lists, and in all of them if there are at least two. For the last two it does not matter
in which order the lists are given.
-/
theorem enumerates_merges (hleft : left.Pairwise (· ≤ ·)) (hright : right.Pairwise (· ≤ ·))
    (h : ∀ list ∈ lists, list.Pairwise (· ≤ ·)) :
    (Enumerates (intersect left right) fun id => id ∈ left ∧ id ∈ right) ∧
    (Enumerates (union left right) fun id => id ∈ left ∨ id ∈ right) ∧
    (Enumerates (unionAll lists) fun id => ∃ list ∈ lists, id ∈ list) ∧
    (2 ≤ lists.length → Enumerates (intersectAll lists) fun id => ∀ list ∈ lists, id ∈ list) ∧
    ∀ others, others.Perm lists →
      unionAll others = unionAll lists ∧
      (2 ≤ lists.length → intersectAll others = intersectAll lists) := by
  refine ⟨enumerates_intersect hleft hright, enumerates_union hleft hright, enumerates_unionAll h,
    enumerates_intersectAll h, ?_⟩
  intro others hperm
  have hothers : ∀ list ∈ others, list.Pairwise (· ≤ ·) := by
    intro list hlist
    apply h
    rwa [← hperm.mem_iff]
  constructor
  · apply (enumerates_unionAll hothers).unique
    simp only [hperm.mem_iff]
    apply enumerates_unionAll h
  · intro hmany
    apply (enumerates_intersectAll hothers (by rwa [hperm.length_eq])).unique
    simp only [hperm.mem_iff]
    apply enumerates_intersectAll h hmany

theorem enumerates_merges_repeats :
    let lists : List (List RecordId) := [[1, 1, 2, 5], [2, 2, 2, 5, 5], [0, 1, 5]]
    intersect [1, 1, 2] [1, 2, 2, 3] = [1, 2] ∧ union [1, 1, 2] [1, 2, 2, 3] = [1, 2, 3] ∧
      unionAll lists = [0, 1, 2, 5] ∧ intersectAll lists = [5] ∧
      (Enumerates (intersect [1, 1, 2] [1, 2, 2, 3]) fun id => id ∈ [1, 1, 2] ∧ id ∈ [1, 2, 2, 3]) ∧
      (Enumerates (intersectAll lists) fun id => ∀ list ∈ lists, id ∈ list) ∧
      intersectAll lists.reverse = intersectAll lists := by
  intro lists
  have hspec := @enumerates_merges [1, 1, 2] [1, 2, 2, 3] lists (by decide) (by decide) (by decide)
  have hall := hspec.2.2.2.1 (by decide)
  refine ⟨by decide +kernel, by decide +kernel, by decide +kernel, ?_, hspec.1, hall, ?_⟩
  · apply hall.unique
    constructor
    · simp
    · intro id
      simp only [lists, List.forall_mem_cons]
      grind
  · exact (hspec.2.2.2.2 lists.reverse lists.reverse_perm).2 (by decide)

end Many

end GramIndex.IdList
