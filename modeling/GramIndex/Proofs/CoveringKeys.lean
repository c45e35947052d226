import GramIndex.Proofs.Indexes

/-!
This module contains which keys cover a text and in which order: those that occur in it, each once,
in the order of their first occurrences.
-/

namespace GramIndex

namespace Gram

/--
The first occurrence of a gram in the given bytes comes after `i` of them.
-/
def FirstAt (gram bytes : Gram) (i : Nat) : Prop :=
  gram <+: bytes.drop i ∧ ∀ j < i, ¬ gram <+: bytes.drop j

/--
Both grams occur in the given bytes, the first of them first.
-/
def Precedes (bytes first second : Gram) : Prop :=
  ∃ i j, first.FirstAt bytes i ∧ second.FirstAt bytes j ∧ i < j

variable {a gram bytes first second : Gram} {b : UInt8} {i j : Nat}

theorem FirstAt.unique (hi : gram.FirstAt bytes i) (hj : gram.FirstAt bytes j) : i = j := by
  cases Nat.lt_trichotomy i j with
  | inl hlt => exact absurd hi.1 (hj.2 i hlt)
  | inr h =>
    cases h with
    | inl heq => exact heq
    | inr hgt => exact absurd hj.1 (hi.2 j hgt)

theorem firstAt_zero (h : gram <+: bytes) : gram.FirstAt bytes 0 := by
  constructor
  · exact h
  · intro j hj
    omega

theorem FirstAt.cons (h : gram.FirstAt bytes i) (hhead : ¬ gram <+: b :: bytes) :
    gram.FirstAt (b :: bytes) (i + 1) := by
  constructor
  · exact h.1
  · intro j hj
    cases j with
    | zero => exact hhead
    | succ j =>
      apply h.2
      omega

theorem exists_firstAt (h : gram <:+: bytes) : ∃ i, gram.FirstAt bytes i := by
  induction bytes with
  | nil =>
    rw [List.infix_nil] at h
    exact ⟨0, firstAt_zero (by rw [h])⟩
  | cons b bytes ih =>
    by_cases hhead : gram <+: b :: bytes
    · exact ⟨0, firstAt_zero hhead⟩
    · rw [List.infix_cons_iff] at h
      obtain ⟨i, hi⟩ := ih (h.resolve_left hhead)
      exact ⟨i + 1, hi.cons hhead⟩

theorem Precedes.ne (h : Precedes bytes first second) : first ≠ second := by
  rintro rfl
  obtain ⟨i, j, hi, hj, hlt⟩ := h
  have := hi.unique hj
  omega

theorem Precedes.cons (h : Precedes bytes first second) (hfirst : ¬ first <+: b :: bytes)
    (hsecond : ¬ second <+: b :: bytes) : Precedes (b :: bytes) first second := by
  obtain ⟨i, j, hi, hj, hlt⟩ := h
  refine ⟨i + 1, j + 1, hi.cons hfirst, hj.cons hsecond, ?_⟩
  omega

theorem precedes_of_prefix (hfirst : first <+: b :: bytes) (hsecond : second <:+: bytes)
    (hhead : ¬ second <+: b :: bytes) : Precedes (b :: bytes) first second := by
  obtain ⟨j, hj⟩ := exists_firstAt hsecond
  refine ⟨0, j + 1, firstAt_zero hfirst, hj.cons hhead, ?_⟩
  omega

theorem pairwise_precedes_cons {grams : List Gram} (h : grams.Pairwise (Precedes bytes))
    (hgrams : ∀ gram ∈ grams, ¬ gram <+: b :: bytes) : grams.Pairwise (Precedes (b :: bytes)) := by
  apply h.imp_of_mem
  intro first second hfirst hsecond hprecedes
  apply hprecedes.cons
  · apply hgrams first hfirst
  · apply hgrams second hsecond

end Gram

namespace KeySet

variable {keys : KeySet} {bound : Nat} {bytes key : Gram} {b : UInt8}

/--
At a byte no other key starts than the one that is hit there.
-/
theorem not_prefix_of_mem_hits (hkey : key ∈ keys.hits bound bytes)
    (hstart : keys.starting? bound (b :: bytes) ≠ some key) : ¬ key <+: b :: bytes := by
  intro hpre
  rw [mem_hits] at hkey
  apply hstart
  rw [starting?_eq_some_iff]
  exact ⟨hkey.1, hpre⟩

/--
Without repeats, hits are in the order of first occurrences, and so are those of them that satisfy
`p`, such as those that have not been seen before.
-/
theorem pairwise_eraseDups_hits (bytes : Gram) (p : Gram → Bool) :
    ((keys.hits bound bytes).filter p).eraseDups.Pairwise (Gram.Precedes bytes) := by
  induction bytes generalizing p with
  | nil => exact .nil
  | cons b bytes ih =>
    have hlater (q : Gram → Bool)
        (hq : ∀ key, q key = true → keys.starting? bound (b :: bytes) ≠ some key) :
        ((keys.hits bound bytes).filter q).eraseDups.Pairwise (Gram.Precedes (b :: bytes)) := by
      apply Gram.pairwise_precedes_cons (ih q)
      intro key hkey
      rw [List.mem_eraseDups, List.mem_filter] at hkey
      apply not_prefix_of_mem_hits hkey.1
      apply hq key hkey.2
    rw [hits]
    cases hstart : keys.starting? bound (b :: bytes) with
    | none =>
      apply hlater
      simp [hstart]
    | some key =>
      rw [List.filter_cons]
      split
      · rw [List.eraseDups_cons, List.filter_filter, List.pairwise_cons]
        constructor
        · intro other hother
          simp only [List.mem_eraseDups, List.mem_filter, Bool.and_eq_true, Bool.not_eq_true',
            beq_eq_false_iff_ne] at hother
          apply Gram.precedes_of_prefix (starting?_eq_some_iff.1 hstart).2
          · exact (mem_hits.1 hother.1).2
          · apply not_prefix_of_mem_hits hother.1
            simp [hstart, Ne.symm hother.2.1]
        · apply hlater
          intro other hother
          simp only [Bool.and_eq_true, Bool.not_eq_true', beq_eq_false_iff_ne] at hother
          simp [hstart, Ne.symm hother.1]
      · next hseen =>
        apply hlater
        rintro other hother heq
        rw [hstart, Option.some.injEq] at heq
        rw [heq] at hseen
        exact hseen hother

end KeySet

namespace Index

variable {data : Dataset} {index : Index}

theorem pairwise_coveringKeys (index : Index) (text : Gram) :
    (index.coveringKeys text).Pairwise (Gram.Precedes text) := by
  unfold coveringKeys
  rw [← List.filter_true (index.keys.hits index.maxKeyLength text)]
  apply KeySet.pairwise_eraseDups_hits

/--
For every index over a dataset, the keys that cover a text are those that occur in it, each of them
once and in the order of their first occurrences. So a part of a text has no other covering keys
than the text, and every key covers itself.
-/
theorem coveringKeys_exact (h : index.BuiltOver data) (text : Gram) :
    (index.coveringKeys text).Nodup ∧
    (∀ key, key ∈ index.coveringKeys text ↔ key ∈ index.keys ∧ key <:+: text) ∧
    (index.coveringKeys text).Pairwise (Gram.Precedes text) ∧
    (∀ part, part <:+: text → ∀ key ∈ index.coveringKeys part, key ∈ index.coveringKeys text) ∧
    ∀ key ∈ index.keys, key ∈ index.coveringKeys key := by
  have hscans := h.scans
  refine ⟨?_, ?_, ?_, ?_, ?_⟩
  · apply (index.pairwise_coveringKeys text).imp
    intro first second hprecedes
    apply hprecedes.ne
  · intro key
    apply hscans.mem_coveringKeys
  · apply index.pairwise_coveringKeys
  · intro part hpart key hkey
    rw [hscans.mem_coveringKeys] at hkey ⊢
    exact ⟨hkey.1, hkey.2.trans hpart⟩
  · intro key hkey
    rw [hscans.mem_coveringKeys]
    exact ⟨hkey, List.infix_refl key⟩

theorem coveringKeys_exact_repeated :
    ∃ index, Index.fromKeys (Dataset.ofList ["cab"]) ⟨[[97, 98], [98], [99]], by decide⟩ 2 =
        .ok index ∧
      index.coveringKeys [98, 99, 97, 98, 99] = [[98], [99], [97, 98]] ∧
      (index.coveringKeys [98, 99, 97, 98, 99]).Pairwise
        (Gram.Precedes [98, 99, 97, 98, 99]) := by
  refine ⟨_, rfl, by decide +kernel, ?_⟩
  exact (@coveringKeys_exact (Dataset.ofList ["cab"]) _
    (.given ⟨[[97, 98], [98], [99]], by decide⟩ 2 rfl) [98, 99, 97, 98, 99]).2.2.1

end Index

end GramIndex
