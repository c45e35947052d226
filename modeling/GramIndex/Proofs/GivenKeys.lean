import GramIndex.Proofs.Indexes

/-!
This module contains which keys chosen elsewhere an index is built from, and which cause is reported
where none is built.
-/

namespace GramIndex.Index

variable {data : Dataset} {keys : KeySet} {upperK : UInt64} {e : BuildError}

/--
Why no index is built over a dataset from keys of at most `upperK` bytes. Each cause is reported
only if none of the causes before it applies, and of the keys that are too long the first one
counts.
-/
inductive Refused (data : Dataset) (keys : KeySet) (upperK : UInt64) : BuildError → Prop where
  | noGramLength (hzero : upperK = 0) : Refused data keys upperK (.config .noGramLength)
  | keysNotPrefixFree (hpos : upperK ≠ 0) (hkeys : [] ∈ keys ∨ ¬ keys.PrefixFree) :
    Refused data keys upperK .keysNotPrefixFree
  | keyTooLong {key : Gram} (hpos : upperK ≠ 0) (hnil : [] ∉ keys) (hfree : keys.PrefixFree)
      (hkey : key ∈ keys) (hlong : upperK.toNat < key.length)
      (hfirst : ∀ other ∈ keys, other < key → other.length ≤ upperK.toNat) :
    Refused data keys upperK (.keyTooLong key.length upperK.toNat)
  | datasetTooLarge (hpos : upperK ≠ 0) (hnil : [] ∉ keys) (hfree : keys.PrefixFree)
      (hshort : ∀ key ∈ keys, key.length ≤ upperK.toNat) (hlarge : Dataset.maxSize < data.size) :
    Refused data keys upperK (.datasetTooLarge data.size)

theorem refused_of_fromKeys (h : fromKeys data keys upperK = .error e) :
    Refused data keys upperK e := by
  unfold fromKeys at h
  split at h
  · next hzero =>
    cases h
    exact .noGramLength hzero
  · next hpos =>
    split at h
    · next hkeys =>
      cases h
      exact .keysNotPrefixFree hpos (unusable_iff.1 hkeys)
    · next hkeys =>
      obtain ⟨hnil, hfree⟩ := usable_iff.1 hkeys
      split at h
      · next key hfound =>
        cases h
        simp only [KeySet.find?_eq_some_iff, decide_eq_true_eq, Nat.not_lt] at hfound
        obtain ⟨hkey, hlong, hfirst⟩ := hfound
        exact .keyTooLong hpos hnil hfree hkey hlong hfirst
      · next hshort =>
        simp only [List.find?_eq_none, decide_eq_true_eq, Nat.not_lt] at hshort
        split at h
        · next hlarge =>
          cases h
          exact .datasetTooLarge hpos hnil hfree hshort hlarge
        · cases h

theorem Refused.fromKeys_eq (h : Refused data keys upperK e) :
    fromKeys data keys upperK = .error e := by
  unfold fromKeys
  cases h with
  | noGramLength hzero => rw [if_pos hzero]
  | keysNotPrefixFree hpos hkeys => rw [if_neg hpos, if_pos (unusable_iff.2 hkeys)]
  | @keyTooLong key hpos hnil hfree hkey hlong hfirst =>
    have hfound : (keys.toList.find? fun key => upperK.toNat < key.length) = some key := by
      simp only [KeySet.find?_eq_some_iff, decide_eq_true_eq, Nat.not_lt]
      exact ⟨hkey, hlong, hfirst⟩
    rw [if_neg hpos, if_neg (usable_iff.2 ⟨hnil, hfree⟩), hfound]
  | datasetTooLarge hpos hnil hfree hshort hlarge =>
    have hfound : (keys.toList.find? fun key => upperK.toNat < key.length) = none := by
      simp only [List.find?_eq_none, decide_eq_true_eq, Nat.not_lt]
      exact hshort
    rw [if_neg hpos, if_neg (usable_iff.2 ⟨hnil, hfree⟩), hfound]
    exact if_pos hlarge

theorem upperK_ne_zero_of_fromKeys {index : Index} (h : fromKeys data keys upperK = .ok index) :
    upperK ≠ 0 := by
  intro hzero
  rw [(Refused.noGramLength hzero).fromKeys_eq] at h
  cases h

/--
An index is built from given keys exactly if they are keys that a scan can find, all of them
non-empty, of at most `upperK` bytes and no start of one another, and the records can be counted.
Otherwise the first cause for a refusal is reported. To compare each key with the next one is enough
to see that none is the start of any other.
-/
theorem fromKeys_accepts (data : Dataset) (keys : KeySet) (upperK : UInt64) :
    ((∃ index, fromKeys data keys upperK = .ok index) ↔
      1 ≤ upperK.toNat ∧ (∀ key ∈ keys, key ≠ []) ∧ keys.PrefixFree ∧
        (∀ key ∈ keys, key.length ≤ upperK.toNat) ∧ data.size ≤ Dataset.maxSize) ∧
    (∀ e, fromKeys data keys upperK = .error e ↔ Refused data keys upperK e) ∧
    (keys.isPrefixFree = true ↔ keys.PrefixFree) := by
  refine ⟨⟨?_, ?_⟩, fun e => ⟨refused_of_fromKeys, Refused.fromKeys_eq⟩, KeySet.isPrefixFree_iff⟩
  · rintro ⟨index, hindex⟩
    obtain ⟨hkeys, hsize, _⟩ := exists_of_fromKeys hindex
    have hpos := upperK_ne_zero_of_fromKeys hindex
    refine ⟨?_, hkeys.ne_nil, hkeys.prefixFree, hkeys.length_le, hsize⟩
    rw [Nat.one_le_iff_ne_zero]
    intro hzero
    exact hpos (UInt64.toNat_inj.1 hzero)
  · rintro ⟨hpos, hnonempty, hfree, hshort, hsize⟩
    cases hresult : fromKeys data keys upperK with
    | ok index => exact ⟨index, rfl⟩
    | error e =>
      exfalso
      cases refused_of_fromKeys hresult with
      | noGramLength hzero =>
        rw [hzero] at hpos
        exact absurd hpos (by decide)
      | keysNotPrefixFree _ hkeys =>
        cases hkeys with
        | inl hnil => exact hnonempty [] hnil rfl
        | inr hnot => exact hnot hfree
      | keyTooLong _ _ _ hkey hlong _ => exact absurd (hshort _ hkey) (Nat.not_le_of_lt hlong)
      | datasetTooLarge _ _ _ _ hlarge => exact absurd hsize (Nat.not_le_of_lt hlarge)

end GramIndex.Index
