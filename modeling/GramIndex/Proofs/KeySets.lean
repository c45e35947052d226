import GramIndex.Postings
import GramIndex.Proofs.Grams
import Mathlib.Data.List.Sort

/-!
This module contains facts about key sets: a set is determined by its members, prefix-freeness is
seen from neighbours, and which keys a scan finds in a record.
-/

namespace GramIndex.KeySet

theorem nodup_toList (keys : KeySet) : keys.toList.Nodup :=
  keys.sorted.nodup

theorem ext {keys others : KeySet} (h : ∀ g, g ∈ keys ↔ g ∈ others) : keys = others := by
  have hlist := keys.sorted.eq_of_mem_iff others.sorted h
  cases keys
  cases others
  simp_all

theorem length_le_longest {key : Gram} {keys : KeySet} (h : key ∈ keys) :
    key.length ≤ keys.longest := by
  have hgo (l : List Gram) (start : Nat) :
      start ≤ l.foldl (fun longest key => max longest key.length) start ∧
        ∀ key ∈ l, key.length ≤ l.foldl (fun longest key => max longest key.length) start := by
    induction l generalizing start with
    | nil => simp
    | cons first l ih =>
      have hfirst := ih (max start first.length)
      rw [List.foldl_cons]
      constructor
      · omega
      · intro key hkey
        cases List.mem_cons.1 hkey with
        | inl heq =>
          rw [heq]
          omega
        | inr hkey => exact hfirst.2 key hkey
  exact (hgo keys.toList 0).2 key h

theorem exists_length_eq_longest (keys : KeySet) :
    keys.toList = [] ∧ keys.longest = 0 ∨ ∃ key ∈ keys, key.length = keys.longest := by
  have hmax : keys.longest = max 0 ((keys.toList.map List.length).max?.getD 0) := by
    rw [← List.foldl_max, List.foldl_map]
    rfl
  cases hfound : (keys.toList.map List.length).max? with
  | none =>
    rw [List.max?_eq_none_iff, List.map_eq_nil_iff] at hfound
    left
    refine ⟨hfound, ?_⟩
    unfold longest
    rw [hfound]
    rfl
  | some n =>
    rw [hfound, Option.getD_some, Nat.zero_max] at hmax
    obtain ⟨key, hkey, hlen⟩ := List.mem_map.1 (List.max?_mem hfound)
    right
    exact ⟨key, hkey, by rw [hlen, hmax]⟩

theorem not_prefix_of_neighbours {l : List Gram} (hsorted : l.Pairwise (· < ·))
    (h : (l.zip l.tail).all (fun (a, b) => !a.isPrefixOf b) = true) :
    l.Pairwise fun a b => ¬ a <+: b := by
  induction l with
  | nil => exact .nil
  | cons a l ih =>
    cases l with
    | nil => simp
    | cons b l =>
      simp only [List.tail_cons, List.zip_cons_cons, List.all_cons, Bool.and_eq_true,
        Bool.not_eq_true'] at h
      have hab : ¬ a <+: b := by
        intro hab
        rw [← List.isPrefixOf_iff_prefix, h.1] at hab
        simp at hab
      rw [List.pairwise_cons] at hsorted
      rw [List.pairwise_cons]
      refine ⟨?_, ih hsorted.2 h.2⟩
      intro c hc hac
      -- The neighbour stands between a gram and all extensions further on.
      have hbc : b ≤ c := by
        cases List.mem_cons.1 hc with
        | inl heq =>
          rw [heq]
          exact List.le_refl b
        | inr hc => exact List.le_of_lt ((List.pairwise_cons.1 hsorted.2).1 c hc)
      apply hab
      exact Gram.prefix_of_between hac (List.le_of_lt (hsorted.1 b List.mem_cons_self)) hbc

theorem PrefixFree.of_isPrefixFree {keys : KeySet} (h : keys.isPrefixFree = true) :
    keys.PrefixFree := by
  have hafter := not_prefix_of_neighbours keys.sorted h
  apply List.Pairwise.forall_of_forall_of_flip (R := fun a b => a <+: b → a = b)
  · intro a _ _
    rfl
  · apply hafter.imp
    intro a b hno hab
    exact absurd hab hno
  · apply keys.sorted.imp
    intro a b hlt hba
    exact absurd hlt hba.le

theorem neighbours_of_not_prefix {l : List Gram} (h : l.Pairwise fun a b => ¬ a <+: b) :
    (l.zip l.tail).all (fun (a, b) => !a.isPrefixOf b) = true := by
  induction l with
  | nil => rfl
  | cons a l ih =>
    cases l with
    | nil => rfl
    | cons b l =>
      rw [List.pairwise_cons] at h
      have hab : a.isPrefixOf b = false := by
        rw [← Bool.not_eq_true, List.isPrefixOf_iff_prefix]
        apply h.1 b List.mem_cons_self
      simp only [List.tail_cons, List.zip_cons_cons, List.all_cons, hab, Bool.not_false,
        Bool.true_and]
      apply ih h.2

theorem PrefixFree.isPrefixFree {keys : KeySet} (h : keys.PrefixFree) :
    keys.isPrefixFree = true := by
  apply neighbours_of_not_prefix
  apply keys.sorted.imp_of_mem
  intro a b ha hb hlt hab
  rw [h a ha b hb hab] at hlt
  exact List.lt_irrefl b hlt

theorem isPrefixFree_iff {keys : KeySet} : keys.isPrefixFree = true ↔ keys.PrefixFree :=
  ⟨.of_isPrefixFree, fun h => h.isPrefixFree⟩

/--
The key that is found first is the least one of those looked for.
-/
theorem find?_eq_some_iff {keys : KeySet} {p : Gram → Bool} {key : Gram} :
    keys.toList.find? p = some key ↔
      key ∈ keys ∧ p key = true ∧ ∀ other ∈ keys, other < key → ¬ p other = true := by
  rw [List.find?_eq_some_iff_append, ← mem_toList]
  constructor
  · rintro ⟨hp, before, after, heq, hbefore⟩
    have hsorted := keys.sorted
    rw [heq, List.pairwise_append] at hsorted
    refine ⟨by simp [heq], hp, ?_⟩
    intro other hother hlt
    rw [← mem_toList, heq, List.mem_append] at hother
    cases hother with
    | inl hother => simpa using hbefore other hother
    | inr hother =>
      -- From the found key on, no key comes before it.
      cases List.mem_cons.1 hother with
      | inl heq =>
        rw [heq] at hlt
        exact absurd hlt (List.lt_irrefl key)
      | inr hother =>
        have hgt := (List.pairwise_cons.1 hsorted.2.1).1 other hother
        exact absurd (List.lt_trans hlt hgt) (List.lt_irrefl other)
  · rintro ⟨hkey, hp, hfirst⟩
    obtain ⟨before, after, heq⟩ := List.append_of_mem hkey
    have hsorted := keys.sorted
    rw [heq, List.pairwise_append] at hsorted
    refine ⟨hp, before, after, heq, ?_⟩
    intro other hother
    rw [Bool.not_eq_true', ← Bool.not_eq_true]
    apply hfirst
    · rw [← mem_toList, heq]
      exact List.mem_append_left _ hother
    · exact hsorted.2.2 other hother key List.mem_cons_self

theorem PrefixFree.subset {keys others : KeySet} (h : keys.PrefixFree)
    (hsub : ∀ key ∈ others, key ∈ keys) : others.PrefixFree := by
  intro a ha b hb hab
  exact h a (hsub a ha) b (hsub b hb) hab

/--
A key that a scan for keys of at most `bound` bytes can find: no shorter key starts it.
-/
def Leads (keys : KeySet) (bound : Nat) (key : Gram) : Prop :=
  key ∈ keys ∧ key ≠ [] ∧ key.length ≤ bound ∧
    ∀ other ∈ keys, other <+: key → other = [] ∨ other = key

theorem leads_min_longest {keys : KeySet} {bound : Nat} {key : Gram} :
    keys.Leads (min keys.longest bound) key ↔ keys.Leads bound key := by
  unfold Leads
  apply and_congr_right
  intro hkey
  have hlongest := length_le_longest hkey
  have hle : key.length ≤ min keys.longest bound ↔ key.length ≤ bound := by omega
  rw [hle]

theorem starting?_eq_some_iff {keys : KeySet} {bound : Nat} {bytes key : Gram} :
    keys.starting? bound bytes = some key ↔ keys.Leads bound key ∧ key <+: bytes := by
  unfold starting?
  simp only [Option.map_eq_some_iff, List.find?_range'_eq_some, decide_eq_true_eq,
    Bool.not_eq_true', decide_eq_false_iff_not, List.mem_range'_1]
  constructor
  · rintro ⟨k, ⟨hkey, hk, hshorter⟩, rfl⟩
    have hlen : (bytes.take k).length = k := by
      rw [List.length_take]
      omega
    refine ⟨⟨hkey, ?_, by omega, ?_⟩, List.take_prefix k bytes⟩
    · apply List.ne_nil_of_length_pos
      omega
    · intro other hother hpre
      -- A shorter key would have been found at its own length.
      have hle := hpre.length_le
      have htake : other = bytes.take other.length :=
        List.prefix_iff_eq_take.1 (hpre.trans (List.take_prefix k bytes))
      by_cases hnil : other = []
      · exact .inl hnil
      · right
        have hpos := List.length_pos_iff.2 hnil
        by_cases hlt : other.length < k
        · rw [htake] at hother
          exact absurd hother (hshorter other.length hpos hlt)
        · exact hpre.eq_of_length (by omega)
  · rintro ⟨⟨hkey, hne, hbound, honly⟩, hpre⟩
    have hpos := List.length_pos_iff.2 hne
    have hle := hpre.length_le
    have htake := List.prefix_iff_eq_take.1 hpre
    refine ⟨key.length, ⟨?_, by omega, ?_⟩, htake.symm⟩
    · rw [← htake]
      exact hkey
    · intro k hk hlt hmem
      have hlen : (bytes.take k).length = k := by
        rw [List.length_take]
        omega
      have hshort : bytes.take k <+: key := by
        rw [htake]
        exact List.take_prefix_take_left (Nat.le_of_lt hlt)
      cases honly _ hmem hshort with
      | inl hnil =>
        rw [hnil, List.length_nil] at hlen
        omega
      | inr heq =>
        rw [heq] at hlen
        omega

theorem mem_hits {keys : KeySet} {bound : Nat} {bytes key : Gram} :
    key ∈ keys.hits bound bytes ↔ keys.Leads bound key ∧ key <:+: bytes := by
  induction bytes with
  | nil =>
    simp only [hits, List.not_mem_nil, List.infix_nil, false_iff, not_and]
    intro hkey
    exact hkey.2.1
  | cons b rest ih =>
    rw [List.infix_cons_iff, and_or_left, ← ih, ← starting?_eq_some_iff, hits]
    cases keys.starting? bound (b :: rest) with
    | none => simp
    | some other => simp [eq_comm]

/--
Every key can be found by a scan for keys of at most `bound` bytes.
-/
structure Scannable (keys : KeySet) (bound : Nat) : Prop where
  prefixFree : keys.PrefixFree
  ne_nil : ∀ key ∈ keys, key ≠ []
  length_le : ∀ key ∈ keys, key.length ≤ bound

theorem Scannable.leads_iff {keys : KeySet} {bound : Nat} (h : keys.Scannable bound) {key : Gram} :
    keys.Leads bound key ↔ key ∈ keys := by
  constructor
  · intro hkey
    exact hkey.1
  · intro hkey
    refine ⟨hkey, h.ne_nil key hkey, h.length_le key hkey, ?_⟩
    intro other hother hpre
    exact .inr (h.prefixFree other hother key hkey hpre)

theorem Scannable.longest {keys : KeySet} {bound : Nat} (h : keys.Scannable bound) :
    keys.Scannable keys.longest where
  prefixFree := h.prefixFree
  ne_nil := h.ne_nil
  length_le _ hkey := length_le_longest hkey

theorem Scannable.mem_hits {keys : KeySet} {bound : Nat} (h : keys.Scannable bound)
    {bytes key : Gram} : key ∈ keys.hits bound bytes ↔ key ∈ keys ∧ key <:+: bytes := by
  rw [KeySet.mem_hits, h.leads_iff]

end GramIndex.KeySet
