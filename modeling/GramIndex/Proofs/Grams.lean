import GramIndex.Gram.Order

/-!
This module contains facts about grams: which windows a record has, and where the extensions of a
gram stand in byte order.
-/

namespace GramIndex.Gram

theorem mem_windows {k : Nat} (hk : 0 < k) {gram bytes : Gram} :
    gram ∈ windows k bytes ↔ gram.length = k ∧ gram <:+: bytes := by
  induction bytes with
  | nil =>
    simp only [windows, List.not_mem_nil, List.infix_nil, false_iff, not_and]
    intro hlen hnil
    rw [hnil, List.length_nil] at hlen
    omega
  | cons b rest ih =>
    rw [windows, List.infix_cons_iff]
    split
    · next hfull =>
      rw [List.mem_cons, ih]
      constructor
      · intro h
        cases h with
        | inl h =>
          rw [h]
          exact ⟨hfull, .inl (List.take_prefix ..)⟩
        | inr h => exact ⟨h.1, .inr h.2⟩
      · rintro ⟨hlen, h⟩
        cases h with
        | inl h =>
          left
          rw [List.prefix_iff_eq_take.1 h, hlen]
        | inr h => exact .inr ⟨hlen, h⟩
    · next hshort =>
      simp only [List.not_mem_nil, false_iff, not_and]
      -- Fewer than `k` bytes are left, so no part of them is long enough.
      intro hlen h
      rw [List.length_take] at hshort
      cases h with
      | inl h =>
        have := h.length_le
        omega
      | inr h =>
        have := h.length_le
        simp only [List.length_cons] at hshort
        omega

theorem dropLast_infix {gram bytes : Gram} (h : gram <:+: bytes) : gram.dropLast <:+: bytes := by
  apply List.IsInfix.trans _ h
  exact (List.dropLast_prefix gram).isInfix

theorem nodup_eraseDups (grams : List Gram) : grams.eraseDups.Nodup := by
  match grams with
  | [] => exact .nil
  | gram :: grams =>
    have := List.length_filter_le (fun other => !other == gram) grams
    rw [List.eraseDups_cons, List.nodup_cons]
    constructor
    · simp
    · apply nodup_eraseDups
termination_by grams.length
decreasing_by
  rw [List.length_cons]
  omega

theorem prefix_of_between {a b c : Gram} (hab : a <+: b) (hac : a ≤ c) (hcb : c ≤ b) :
    a <+: c := by
  induction a generalizing b c with
  | nil => simp
  | cons x a ih =>
    obtain ⟨t, rfl⟩ := hab
    rw [List.cons_append] at hcb
    cases c with
    | nil =>
      rw [List.le_nil] at hac
      simp at hac
    | cons y c =>
      rw [List.cons_le_cons_iff] at hac hcb
      have hxy : x = y := by
        cases hac with
        | inl hac =>
          cases hcb with
          | inl hcb => exact absurd (UInt8.lt_trans hac hcb) (UInt8.lt_irrefl x)
          | inr hcb => exact hcb.1.symm
        | inr hac => exact hac.1
      subst hxy
      rw [List.cons_prefix_cons]
      refine ⟨rfl, ih (List.prefix_append a t) ?_ ?_⟩
      · exact (hac.resolve_left (UInt8.lt_irrefl x)).2
      · exact (hcb.resolve_left (UInt8.lt_irrefl x)).2

end GramIndex.Gram
