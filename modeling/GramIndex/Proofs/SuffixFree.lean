import GramIndex.Proofs.KeySets

/-!
This module contains which keys are left when those that end with another key are dropped. The
reversed keys are looked at in byte order, each beside the last one that was kept, and this is
enough to find every key that has another one at its end.
-/

namespace GramIndex.KeySet

variable {a g : Gram} {gs : List Gram}

/--
The first of ascending grams extends none of them but itself.
-/
theorem eq_of_prefix_head (h : (a :: gs).Pairwise (· < ·)) :
    ∀ p ∈ a :: gs, p <+: a → p = a := by
  intro p hp hpre
  rcases List.mem_cons.1 hp with heq | hp
  · exact heq
  · have hlt := (List.pairwise_cons.1 h).1 p hp
    exact List.le_antisymm hpre.le (List.le_of_lt hlt)

theorem mem_dropExtensions_go {kept : Gram} (h : (kept :: gs).Pairwise (· < ·)) :
    g ∈ dropExtensions.go kept gs ↔ g ∈ gs ∧ ∀ p ∈ kept :: gs, p <+: g → p = g := by
  induction gs generalizing kept with
  | nil => simp [dropExtensions.go]
  | cons a gs ih =>
    obtain ⟨hkept, hrest⟩ := List.pairwise_cons.1 h
    have hlt : kept < a := hkept a List.mem_cons_self
    have hne : kept ≠ a := fun heq => List.lt_irrefl a (heq ▸ hlt)
    rw [dropExtensions.go]
    by_cases hpre : kept <+: a
    · have hlen : kept.length < a.length :=
        Nat.lt_of_le_of_ne hpre.length_le fun heq => hne (hpre.eq_of_length heq)
      rw [if_pos (by simp [hlen, hpre]), ih (h.sublist (by simp))]
      -- What starts with the dropped gram starts with the kept one, too.
      have hno : (kept <+: g → kept = g) → ¬ a <+: g := by
        intro honly hag
        have hle : a ≤ kept := honly (hpre.trans hag) ▸ hag.le
        exact hle hlt
      rw [List.forall_mem_cons, List.forall_mem_cons, List.forall_mem_cons, List.mem_cons]
      constructor
      · rintro ⟨hg, hk, honly⟩
        exact ⟨.inr hg, hk, fun hag => absurd hag (hno hk), honly⟩
      · rintro ⟨hg, hk, _, honly⟩
        exact ⟨hg.resolve_left fun heq => hno hk (heq ▸ List.prefix_refl a), hk, honly⟩
    · rw [if_neg (by simp [hpre]), List.mem_cons, ih hrest, List.mem_cons,
        List.forall_mem_cons (a := kept)]
      -- What starts with the kept gram would stand before the first gram that does not.
      have hno : ∀ c ∈ a :: gs, ¬ kept <+: c := by
        intro c hc hkc
        apply hpre
        apply Gram.prefix_of_between hkc (List.le_of_lt hlt)
        rcases List.mem_cons.1 hc with heq | hc
        · exact heq ▸ List.le_refl a
        · exact List.le_of_lt ((List.pairwise_cons.1 hrest).1 c hc)
      constructor
      · rintro (rfl | ⟨hg, honly⟩)
        · exact ⟨.inl rfl, fun hk => absurd hk hpre, eq_of_prefix_head hrest⟩
        · exact ⟨.inr hg, fun hk => absurd hk (hno g (List.mem_cons_of_mem a hg)), honly⟩
      · rintro ⟨rfl | hg, _, honly⟩
        · exact .inl rfl
        · exact .inr ⟨hg, honly⟩

theorem mem_dropExtensions (h : gs.Pairwise (· < ·)) :
    g ∈ dropExtensions gs ↔ g ∈ gs ∧ ∀ p ∈ gs, p <+: g → p = g := by
  cases gs with
  | nil => simp [dropExtensions]
  | cons a gs =>
    rw [dropExtensions, List.mem_cons, mem_dropExtensions_go h, List.mem_cons]
    constructor
    · rintro (rfl | ⟨hg, honly⟩)
      · exact ⟨.inl rfl, eq_of_prefix_head h⟩
      · exact ⟨.inr hg, honly⟩
    · rintro ⟨rfl | hg, honly⟩
      · exact .inl rfl
      · exact .inr ⟨hg, honly⟩

theorem mem_suffixFree {key : Gram} {keys : KeySet} :
    key ∈ keys.suffixFree ↔ key ∈ keys ∧ ∀ other ∈ keys, other <:+ key → other = key := by
  have hmem (g : Gram) : g ∈ (ofList (keys.toList.map List.reverse)).toList ↔ g.reverse ∈ keys := by
    rw [mem_toList, mem_ofList, List.mem_map]
    constructor
    · rintro ⟨original, horiginal, rfl⟩
      rwa [List.reverse_reverse]
    · intro hg
      exact ⟨g.reverse, hg, List.reverse_reverse g⟩
  unfold suffixFree
  rw [mem_ofList, List.mem_map]
  simp only [mem_dropExtensions (sorted _), hmem]
  constructor
  · rintro ⟨g, ⟨hg, honly⟩, rfl⟩
    refine ⟨hg, ?_⟩
    intro other hother hsuffix
    have hpre : other.reverse <+: g := by
      rw [← List.reverse_reverse g]
      exact List.reverse_prefix.2 hsuffix
    have heq := honly other.reverse (by rwa [List.reverse_reverse]) hpre
    rw [← heq, List.reverse_reverse]
  · rintro ⟨hkey, honly⟩
    refine ⟨key.reverse, ⟨by rwa [List.reverse_reverse], ?_⟩, List.reverse_reverse key⟩
    intro p hp hpre
    have hsuffix : p.reverse <:+ key := by
      rw [← List.reverse_prefix, List.reverse_reverse]
      exact hpre
    rw [← honly p.reverse hp hsuffix, List.reverse_reverse]

theorem mem_of_mem_suffixFree {key : Gram} {keys : KeySet} (h : key ∈ keys.suffixFree) :
    key ∈ keys :=
  (mem_suffixFree.1 h).1

/--
Every key ends with one that is kept: a shortest key at its end.
-/
theorem exists_suffix_of_mem {key : Gram} {keys : KeySet} (h : key ∈ keys) :
    ∃ kept ∈ keys.suffixFree, kept <:+ key := by
  by_cases hends : ∃ other ∈ keys, other <:+ key ∧ other ≠ key
  · obtain ⟨other, hother, hsuffix, hne⟩ := hends
    have hlt : other.length < key.length :=
      Nat.lt_of_le_of_ne hsuffix.length_le fun heq => hne (hsuffix.eq_of_length heq)
    obtain ⟨kept, hmem, hkept⟩ := exists_suffix_of_mem hother
    exact ⟨kept, hmem, hkept.trans hsuffix⟩
  · refine ⟨key, mem_suffixFree.2 ⟨h, ?_⟩, List.suffix_refl key⟩
    intro other hother hsuffix
    exact Decidable.byContradiction fun hne => hends ⟨other, hother, hsuffix, hne⟩
termination_by key.length

/--
Of any set of keys exactly those are kept that end with no other key of the set. So no key that is
kept ends with another one, every key that is dropped ends with one that is kept, a prefix-free set
stays prefix-free, and there is nothing to drop a second time.
-/
theorem suffixFree_minimal (keys : KeySet) :
    (∀ key, key ∈ keys.suffixFree ↔
      key ∈ keys ∧ ∀ other ∈ keys, other <:+ key → other = key) ∧
    (∀ a ∈ keys.suffixFree, ∀ b ∈ keys.suffixFree, a <:+ b → a = b) ∧
    (∀ key ∈ keys, key ∉ keys.suffixFree →
      ∃ kept ∈ keys.suffixFree, kept <:+ key ∧ kept ≠ key) ∧
    (keys.PrefixFree → keys.suffixFree.PrefixFree) ∧
    keys.suffixFree.suffixFree = keys.suffixFree := by
  have hends : ∀ a ∈ keys.suffixFree, ∀ b ∈ keys.suffixFree, a <:+ b → a = b := by
    intro a ha b hb hsuffix
    exact (mem_suffixFree.1 hb).2 a (mem_of_mem_suffixFree ha) hsuffix
  refine ⟨fun _ => mem_suffixFree, hends, ?_, ?_, ?_⟩
  · intro key hkey hdropped
    obtain ⟨kept, hkept, hsuffix⟩ := exists_suffix_of_mem hkey
    refine ⟨kept, hkept, hsuffix, ?_⟩
    rintro rfl
    exact hdropped hkept
  · intro hfree
    exact hfree.subset fun _ => mem_of_mem_suffixFree
  · apply ext
    intro key
    rw [mem_suffixFree]
    apply and_iff_left_of_imp
    intro hkey other hother
    exact hends other hother key hkey

end GramIndex.KeySet
