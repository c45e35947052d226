import GramIndex.Proofs.SuffixFree
import GramIndex.Proofs.Tallies
import GramIndex.Dataset
import GramIndex.Selection
import Mathlib.Data.Set.Card
import Mathlib.Data.Set.Finite.List

/-!
This module contains which keys are selected from a dataset. Growth goes from length to length, and
before each length the keys are the grams that became selective earlier, while the grams to extend
are those none of whose prefixes is selective.
-/

namespace GramIndex.Selector

/--
The number of records that contain a gram.
-/
def frequency (records : List Gram) (gram : Gram) : Nat :=
  records.countP gram.occursIn

def Selective (s : Selector) (records : List Gram) (gram : Gram) : Prop :=
  s.isSelective (frequency records gram) records.length = true

/--
A gram of the records that is selective while none of its proper prefixes is.
-/
structure FirstSelective (s : Selector) (records : List Gram) (gram : Gram) : Prop where
  ne_nil : gram ≠ []
  length_le : gram.length ≤ s.upperK
  occurs : ∃ record ∈ records, gram <:+: record
  selective : s.Selective records gram
  not_earlier : ∀ p, p <+: gram → p ≠ [] → p ≠ gram → ¬ s.Selective records p

/--
The bound on the number of keys leaves room for a gram: the shorter grams do not reach it, which is
looked at from length three on.
-/
def HasRoom (s : Selector) (records : List Gram) (gram : Gram) : Prop :=
  gram.length ≤ 2 ∨ ∀ bound, s.maxKeys = some bound →
    {g | s.FirstSelective records g ∧ g.length < gram.length}.ncard < bound

theorem frequency_pos_iff {records : List Gram} {gram : Gram} :
    0 < frequency records gram ↔ ∃ record ∈ records, gram <:+: record := by
  unfold frequency
  rw [List.countP_pos_iff]
  simp only [Gram.occursIn_iff]

theorem mem_grams {k : Nat} (hk : 0 < k) {record g : Gram} :
    g ∈ grams k record ↔ g.length = k ∧ g <:+: record := by
  unfold grams
  rw [KeySet.mem_toList, KeySet.mem_ofList, Gram.mem_windows hk]

theorem mem_extensions {expand : List Gram} {k : Nat} (hk : 0 < k) {record g : Gram} :
    g ∈ extensions (.ofList expand) k record ↔
      (g.length = k ∧ g.dropLast ∈ expand) ∧ g <:+: record := by
  unfold extensions
  rw [KeySet.mem_toList, KeySet.mem_ofList, List.mem_filter, Gram.mem_windows hk,
    decide_eq_true_iff, Std.HashSet.mem_ofList, List.contains_iff_mem]
  constructor
  · rintro ⟨⟨hlen, hin⟩, hmem⟩
    exact ⟨⟨hlen, hmem⟩, hin⟩
  · rintro ⟨⟨hlen, hmem⟩, hin⟩
    exact ⟨⟨hlen, hin⟩, hmem⟩

/--
A gram that is visited at most once in a record is counted once for each record that contains it, if
it is to be counted at all.
-/
theorem count_flatMap {records : List Gram} {visit : Gram → List Gram} {p : Gram → Prop}
    [DecidablePred p] (hnodup : ∀ record, (visit record).Nodup)
    (hmem : ∀ record g, g ∈ visit record ↔ p g ∧ g <:+: record) (g : Gram) :
    (records.flatMap visit).count g = if p g then frequency records g else 0 := by
  unfold frequency
  induction records with
  | nil => simp
  | cons record records ih =>
    have hone : (visit record).count g = if g ∈ visit record then 1 else 0 := (hnodup record).count
    rw [List.flatMap_cons, List.count_append, ih, hone, List.countP_cons]
    simp only [hmem, Gram.occursIn_iff]
    by_cases hg : p g
    · rw [if_pos hg, if_pos hg]
      simp only [hg, true_and]
      omega
    · rw [if_neg hg, if_neg hg]
      simp [hg]

theorem count_grams {records : List Gram} {k : Nat} (hk : 0 < k) (g : Gram) :
    (records.flatMap (grams k)).count g = if g.length = k then frequency records g else 0 :=
  count_flatMap (fun _ => KeySet.nodup_toList _) (fun _ _ => mem_grams hk) g

theorem count_extensions {records expand : List Gram} {k : Nat} (hk : 0 < k) (g : Gram) :
    (records.flatMap (extensions (.ofList expand) k)).count g =
      if g.length = k ∧ g.dropLast ∈ expand then frequency records g else 0 :=
  count_flatMap (fun _ => KeySet.nodup_toList _) (fun _ _ => mem_extensions hk) g

theorem mem_split_keys {s : Selector} {total : Nat} {counts : List (Gram × Nat)} {g : Gram} :
    g ∈ (s.split total counts).keys ↔ ∃ n, (g, n) ∈ counts ∧ s.isSelective n total = true := by
  simp [split]

theorem mem_split_expand {s : Selector} {total : Nat} {counts : List (Gram × Nat)} {g : Gram} :
    g ∈ (s.split total counts).expand ↔ ∃ n, (g, n) ∈ counts ∧ ¬ s.isSelective n total = true := by
  simp [split]

/--
What a pass for length `k` has to find: the extensions that occur, sorted by selectivity.
-/
structure Sorts (s : Selector) (records : List Gram) (k : Nat) (expand : List Gram)
    (sorted : Split) : Prop where
  mem_keys : ∀ g, g ∈ sorted.keys ↔
    (g.length = k ∧ g.dropLast ∈ expand) ∧ (∃ record ∈ records, g <:+: record) ∧
      s.Selective records g
  mem_expand : ∀ g, g ∈ sorted.expand ↔
    (g.length = k ∧ g.dropLast ∈ expand) ∧ (∃ record ∈ records, g <:+: record) ∧
      ¬ s.Selective records g

theorem sorts_split {s : Selector} {records expand : List Gram} {k : Nat}
    {counts : List (Gram × Nat)}
    (h : ∀ g n, (g, n) ∈ counts ↔
      (g.length = k ∧ g.dropLast ∈ expand) ∧ 0 < n ∧ n = frequency records g) :
    s.Sorts records k expand (s.split records.length counts) := by
  have hentry (P : Nat → Prop) (g : Gram) : (∃ n, (g, n) ∈ counts ∧ P n) ↔
      (g.length = k ∧ g.dropLast ∈ expand) ∧ (∃ record ∈ records, g <:+: record) ∧
        P (frequency records g) := by
    simp only [h g _, ← frequency_pos_iff]
    constructor
    · rintro ⟨n, ⟨hg, hpos, rfl⟩, hP⟩
      exact ⟨hg, hpos, hP⟩
    · rintro ⟨hg, hpos, hP⟩
      exact ⟨_, ⟨hg, hpos, rfl⟩, hP⟩
  constructor
  · intro g
    rw [mem_split_keys, hentry fun n => s.isSelective n records.length = true]
    rfl
  · intro g
    rw [mem_split_expand, hentry fun n => ¬ s.isSelective n records.length = true]
    rfl

theorem sorts_pass {s : Selector} {records expand : List Gram} {k : Nat} (hk : 0 < k) :
    s.Sorts records k expand (s.pass records k expand) := by
  unfold pass
  split
  · apply sorts_split
    intro g n
    rw [List.mem_filter, Tally.counts_ofList _ g n, count_grams hk, decide_eq_true_iff,
      Std.HashSet.mem_ofList, List.contains_iff_mem]
    by_cases hlen : g.length = k
    · rw [if_pos hlen]
      simp only [hlen, true_and]
      exact and_comm
    · rw [if_neg hlen]
      simp only [hlen, false_and, iff_false]
      omega
  · apply sorts_split
    intro g n
    rw [Tally.counts_ofList _ g n, count_extensions hk]
    by_cases hg : g.length = k ∧ g.dropLast ∈ expand
    · rw [if_pos hg]
      simp only [hg, and_self, true_and]
    · rw [if_neg hg]
      simp only [hg, false_and, iff_false]
      omega

/--
The grams of length `k - 1` that the selection extends: none of their prefixes is selective.
-/
def Frontier (s : Selector) (records : List Gram) (k : Nat) (expand : List Gram) : Prop :=
  ∀ g, (∃ record ∈ records, g <:+: record) → g.length + 1 = k →
    (g ∈ expand ↔ ∀ p, p <+: g → p ≠ [] → ¬ s.Selective records p)

theorem prefix_dropLast_iff {p g : Gram} (hg : g ≠ []) : p <+: g.dropLast ↔ p <+: g ∧ p ≠ g := by
  have hlen : g.dropLast.length = g.length - 1 := List.length_dropLast
  have hpos := List.length_pos_of_ne_nil hg
  constructor
  · intro h
    refine ⟨h.trans (List.dropLast_prefix g), ?_⟩
    intro heq
    have := h.length_le
    rw [heq] at this
    omega
  · rintro ⟨h, hne⟩
    apply List.prefix_of_prefix_length_le h (List.dropLast_prefix g)
    have hle := h.length_le
    have : p.length ≠ g.length := by
      intro heq
      exact hne (h.eq_of_length heq)
    omega

section Growth

variable {s : Selector} {records : List Gram} {k : Nat} {expand : List Gram} {sorted : Split}

theorem Frontier.dropLast_mem (h : s.Frontier records k expand) {g : Gram} (hg : g ≠ [])
    (hoccurs : ∃ record ∈ records, g <:+: record) (hlen : g.length = k) :
    g.dropLast ∈ expand ↔ ∀ p, p <+: g → p ≠ [] → p ≠ g → ¬ s.Selective records p := by
  have hpos := List.length_pos_of_ne_nil hg
  rw [h]
  · constructor
    · intro hall p hp hne hpg
      exact hall p ((prefix_dropLast_iff hg).2 ⟨hp, hpg⟩) hne
    · intro hall p hp hne
      have := (prefix_dropLast_iff hg).1 hp
      exact hall p this.1 hne this.2
  · obtain ⟨record, hrecord, hin⟩ := hoccurs
    exact ⟨record, hrecord, Gram.dropLast_infix hin⟩
  · rw [List.length_dropLast]
    omega

theorem Frontier.next (h : s.Frontier records k expand) (hk : 0 < k)
    (hsorted : s.Sorts records k expand sorted) : s.Frontier records (k + 1) sorted.expand := by
  intro g hoccurs hlen
  have hg : g ≠ [] := by
    apply List.ne_nil_of_length_pos
    omega
  rw [hsorted.mem_expand, h.dropLast_mem hg hoccurs (by omega)]
  constructor
  · rintro ⟨⟨_, hproper⟩, _, hself⟩ p hp hne
    by_cases hpg : p = g
    · rw [hpg]
      exact hself
    · exact hproper p hp hne hpg
  · intro hall
    refine ⟨⟨by omega, ?_⟩, hoccurs, hall g (List.prefix_refl g) hg⟩
    intro p hp hne _
    exact hall p hp hne

theorem Frontier.mem_keys (h : s.Frontier records k expand) (hk : 0 < k) (hle : k ≤ s.upperK)
    (hsorted : s.Sorts records k expand sorted) {g : Gram} :
    g ∈ sorted.keys ↔ s.FirstSelective records g ∧ g.length = k := by
  rw [hsorted.mem_keys]
  constructor
  · rintro ⟨⟨hlen, hmem⟩, hoccurs, hself⟩
    have hg : g ≠ [] := by
      apply List.ne_nil_of_length_pos
      omega
    refine ⟨⟨hg, by omega, hoccurs, hself, ?_⟩, hlen⟩
    exact (h.dropLast_mem hg hoccurs hlen).1 hmem
  · rintro ⟨hfirst, hlen⟩
    refine ⟨⟨hlen, ?_⟩, hfirst.occurs, hfirst.selective⟩
    exact (h.dropLast_mem hfirst.ne_nil hfirst.occurs hlen).2 hfirst.not_earlier

theorem Frontier.length_lt_of_nil (h : s.Frontier records k []) (hk : 0 < k) {g : Gram}
    (hfirst : s.FirstSelective records g) : g.length < k := by
  apply Decidable.byContradiction
  intro hlong
  have hpre : g.take (k - 1) <+: g := List.take_prefix ..
  have hlen : (g.take (k - 1)).length + 1 = k := by
    rw [List.length_take]
    omega
  have hoccurs : ∃ record ∈ records, g.take (k - 1) <:+: record := by
    obtain ⟨record, hrecord, hin⟩ := hfirst.occurs
    exact ⟨record, hrecord, hpre.isInfix.trans hin⟩
  apply List.not_mem_nil
  rw [h _ hoccurs hlen]
  intro p hp hne
  apply hfirst.not_earlier p (hp.trans hpre) hne
  intro heq
  have := hp.length_le
  rw [heq] at this
  omega

theorem finite_shorter (s : Selector) (records : List Gram) (n : Nat) :
    {g | s.FirstSelective records g ∧ g.length < n}.Finite := by
  have : Finite UInt8 := Finite.of_injective UInt8.toFin fun _ _ => UInt8.toFin_inj.1
  apply (List.finite_length_lt UInt8 n).subset
  intro g hg
  exact hg.2

theorem size_eq_ncard {keys : KeySet}
    (hkeys : ∀ g, g ∈ keys ↔ s.FirstSelective records g ∧ g.length < k) :
    keys.size = {g | s.FirstSelective records g ∧ g.length < k}.ncard := by
  have hset : {g | s.FirstSelective records g ∧ g.length < k} = ↑keys.toList.toFinset := by
    ext g
    rw [Set.mem_ofPred_eq, ← hkeys, Finset.mem_coe, List.mem_toFinset, KeySet.mem_toList]
  rw [hset, Set.ncard_coe_finset, List.toFinset_card_of_nodup keys.nodup_toList]
  rfl

theorem hasRoom_of_not_atCapacity {keys : KeySet}
    (hkeys : ∀ g, g ∈ keys ↔ s.FirstSelective records g ∧ g.length < k)
    (hroom : ¬ (3 ≤ k ∧ s.atCapacity keys = true)) {g : Gram} (hlen : g.length = k) :
    s.HasRoom records g := by
  unfold HasRoom
  by_cases hk : 3 ≤ k
  · right
    intro bound hbound
    rw [hlen, ← size_eq_ncard hkeys]
    apply Decidable.byContradiction
    intro hfull
    apply hroom
    refine ⟨hk, ?_⟩
    simp only [atCapacity, hbound, decide_eq_true_eq]
    omega
  · left
    omega

theorem not_hasRoom_of_atCapacity {keys : KeySet}
    (hkeys : ∀ g, g ∈ keys ↔ s.FirstSelective records g ∧ g.length < k)
    (hfull : 3 ≤ k ∧ s.atCapacity keys = true) {g : Gram} (hlen : k ≤ g.length) :
    ¬ s.HasRoom records g := by
  intro hroom
  unfold atCapacity at hfull
  split at hfull
  · next bound hbound =>
    cases hroom with
    | inl hshort => omega
    | inr hroom =>
      have hlt := hroom bound hbound
      have hle : keys.size ≤ {g' | s.FirstSelective records g' ∧ g'.length < g.length}.ncard := by
        rw [size_eq_ncard hkeys]
        apply Set.ncard_le_ncard _ (finite_shorter s records g.length)
        intro g' hg'
        exact ⟨hg'.1, Nat.lt_of_lt_of_le hg'.2 hlen⟩
      have := of_decide_eq_true hfull.2
      omega
  · simp at hfull

/--
Growth from length `k` on completes the keys, if before it the keys are the shorter grams that
became selective and the grams to extend are the frontier.
-/
theorem mem_grow {step : Nat → List Gram → Split}
    (hstep : ∀ k expand, 0 < k → s.Sorts records k expand (step k expand)) {keys : KeySet}
    (hk : 0 < k) (hkeys : ∀ g, g ∈ keys ↔ s.FirstSelective records g ∧ g.length < k)
    (hfrontier : s.Frontier records k expand) {g : Gram} :
    g ∈ s.grow step k keys expand ↔
      s.FirstSelective records g ∧ (g.length < k ∨ s.HasRoom records g) := by
  fun_induction s.grow step k keys expand with
  | case1 k keys expand hgo sorted ih =>
    have hsorted : s.Sorts records k expand sorted := hstep k expand hk
    have hnew : ∀ g, g ∈ keys.insertAll sorted.keys ↔
        s.FirstSelective records g ∧ g.length < k + 1 := by
      intro g
      rw [KeySet.mem_insertAll, hkeys, hfrontier.mem_keys hk hgo.1 hsorted, ← and_or_left]
      apply and_congr_right
      intro _
      omega
    rw [ih (by omega) hnew (hfrontier.next hk hsorted)]
    apply and_congr_right
    intro _
    constructor
    · intro h
      cases h with
      | inl hlt =>
        by_cases hlen : g.length = k
        · right
          exact hasRoom_of_not_atCapacity hkeys hgo.2.2 hlen
        · left
          omega
      | inr hroom => exact .inr hroom
    · intro h
      apply h.imp_left
      intro hlt
      omega
  | case2 k keys expand hstop =>
    rw [hkeys]
    apply and_congr_right
    intro hfirst
    constructor
    · exact .inl
    · intro h
      -- Growth stops at the length bound, at the bound on keys or with nothing to extend.
      apply Decidable.byContradiction
      intro hlong
      apply hstop
      refine ⟨?_, ?_, ?_⟩
      · have := hfirst.length_le
        omega
      · intro hnil
        rw [hnil] at hfrontier
        exact hlong (hfrontier.length_lt_of_nil hk hfirst)
      · intro hfull
        apply not_hasRoom_of_atCapacity hkeys hfull _ (h.resolve_left hlong)
        omega

theorem frontier_one : s.Frontier records 1 [[]] := by
  intro g _ hlen
  have hnil : g = [] := by
    apply List.eq_nil_of_length_eq_zero
    omega
  subst hnil
  simp only [List.mem_singleton, List.prefix_nil, true_iff]
  intro p hp hne
  exact absurd hp hne

theorem mem_grow_start {step : Nat → List Gram → Split}
    (hstep : ∀ k expand, 0 < k → s.Sorts records k expand (step k expand)) {g : Gram} :
    g ∈ s.grow step 1 ∅ [[]] ↔ s.FirstSelective records g ∧ s.HasRoom records g := by
  have hempty : ∀ g, g ∈ (∅ : KeySet) ↔ s.FirstSelective records g ∧ g.length < 1 := by
    intro g
    apply iff_of_false KeySet.mem_empty
    rintro ⟨hfirst, hlen⟩
    have := List.length_pos_of_ne_nil hfirst.ne_nil
    omega
  rw [mem_grow hstep Nat.one_pos hempty frontier_one]
  apply and_congr_right
  intro hfirst
  have := List.length_pos_of_ne_nil hfirst.ne_nil
  apply or_iff_right
  omega

end Growth

theorem prefixFree_of_firstSelective {s : Selector} {records : List Gram} {keys : KeySet}
    (h : ∀ g ∈ keys, s.FirstSelective records g) : keys.PrefixFree := by
  intro a ha b hb hab
  apply Decidable.byContradiction
  intro hne
  exact (h b hb).not_earlier a hab (h a ha).ne_nil hne (h a ha).selective

theorem mem_of_mem_refine {s : Selector} {keys : KeySet} {g : Gram} (h : g ∈ s.refine keys) :
    g ∈ keys := by
  unfold refine at h
  split at h
  · exact KeySet.mem_of_mem_suffixFree h
  · exact h

theorem firstSelective_of_mem_select {s : Selector} {records : List Gram} {g : Gram}
    (h : g ∈ s.select records) : s.FirstSelective records g := by
  have hgrown := mem_of_mem_refine h
  rw [mem_grow_start fun _ _ hk => sorts_pass hk] at hgrown
  exact hgrown.1

/--
The selected keys where none are dropped for ending with others.
-/
theorem mem_select {s : Selector} {records : List Gram} (hplain : s.suffixFree = false) {g : Gram} :
    g ∈ s.select records ↔ s.FirstSelective records g ∧ s.HasRoom records g := by
  rw [select, refine, if_neg (by simp [hplain])]
  exact mem_grow_start fun _ _ hk => sorts_pass hk

theorem firstSelective_singleton {s : Selector} {records : List Gram} {b : UInt8}
    (hupper : 1 ≤ s.upperK) (hoccurs : ∃ record ∈ records, [b] <:+: record)
    (hselective : s.Selective records [b]) : s.FirstSelective records [b] where
  ne_nil := List.cons_ne_nil b []
  length_le := hupper
  occurs := hoccurs
  selective := hselective
  not_earlier p hp hne hother := by
    have hle := hp.length_le
    have hpos := List.length_pos_of_ne_nil hne
    rw [List.length_singleton] at hle
    exact absurd (hp.eq_of_length (by rw [List.length_singleton]; omega)) hother

theorem ofConfig_of_validate {c : Config} (h : c.validate = .ok ()) :
    Selector.ofConfig c =
      .ok ⟨c.threshold, c.upperK.toNat, c.suffixFree, c.maxKeys.map UInt64.toNat⟩ := by
  unfold ofConfig
  rw [h]

/--
A valid configuration selects the grams that become selective at their length and that the bound on
the number of keys leaves room for, and then drops keys that end with others if it asks for that.
-/
theorem select_exact (data : Dataset) (c : Config) (h : c.validate = .ok ()) :
    ∃ (s : Selector) (grown : KeySet), Selector.ofConfig c = .ok s ∧
      (∀ g, g ∈ grown ↔ s.FirstSelective data.records g ∧ s.HasRoom data.records g) ∧
      s.select data.records = (if c.suffixFree then grown.suffixFree else grown) ∧
      (s.select data.records).PrefixFree := by
  refine ⟨_, _, ofConfig_of_validate h, ?_, rfl, ?_⟩
  · intro g
    exact mem_grow_start fun _ _ hk => sorts_pass hk
  · apply prefixFree_of_firstSelective
    intro g hg
    exact firstSelective_of_mem_select hg

section Computed

/-! The specification of the selected keys can be computed for a given dataset. -/

variable (s : Selector) (records : List Gram) (g : Gram)

instance : Decidable (s.Selective records g) :=
  inferInstanceAs (Decidable (s.isSelective (frequency records g) records.length = true))

instance : Decidable (s.FirstSelective records g) :=
  decidable_of_iff
    ((g ≠ [] ∧ g.length ≤ s.upperK) ∧ (∃ record ∈ records, g <:+: record) ∧
      s.Selective records g ∧ ∀ p ∈ g.inits, p ≠ [] → p ≠ g → ¬ s.Selective records p)
    ⟨fun ⟨⟨hne, hle⟩, hoccurs, hself, hearlier⟩ =>
        ⟨hne, hle, hoccurs, hself, fun p hp => hearlier p ((List.mem_inits p g).2 hp)⟩,
      fun h => ⟨⟨h.ne_nil, h.length_le⟩, h.occurs, h.selective,
        fun p hp => h.not_earlier p ((List.mem_inits p g).1 hp)⟩⟩

/--
The grams that become selective at their length, found among the windows of the records.
-/
def firstSelectives : List Gram :=
  let windows := records.flatMap fun record =>
    (List.range' 1 s.upperK).flatMap fun k => record.windows k
  (windows.filter fun g => s.FirstSelective records g).eraseDups

theorem mem_firstSelectives : g ∈ s.firstSelectives records ↔ s.FirstSelective records g := by
  unfold firstSelectives
  rw [List.mem_eraseDups, List.mem_filter, decide_eq_true_iff, and_iff_right_iff_imp]
  intro h
  obtain ⟨record, hrecord, hin⟩ := h.occurs
  have hpos := List.length_pos_of_ne_nil h.ne_nil
  have hle := h.length_le
  refine List.mem_flatMap.2 ⟨record, hrecord, List.mem_flatMap.2 ⟨g.length, ?_, ?_⟩⟩
  · rw [List.mem_range'_1]
    omega
  · exact (Gram.mem_windows hpos).2 ⟨rfl, hin⟩

theorem ncard_firstSelective (n : Nat) :
    {g | s.FirstSelective records g ∧ g.length < n}.ncard =
      ((s.firstSelectives records).filter fun g => g.length < n).length := by
  have hnodup : ((s.firstSelectives records).filter fun g => g.length < n).Nodup :=
    (Gram.nodup_eraseDups _).filter _
  rw [← List.toFinset_card_of_nodup hnodup, ← Set.ncard_coe_finset]
  congr 1
  ext g
  simp [mem_firstSelectives]

instance : Decidable (s.HasRoom records g) :=
  decidable_of_iff
    (g.length ≤ 2 ∨ ∀ bound ∈ s.maxKeys,
      ((s.firstSelectives records).filter fun g' => g'.length < g.length).length < bound) <| by
    simp only [HasRoom, ncard_firstSelective, Option.mem_def]

variable {s records} in
/--
Keys are told by the grams that have to be in the set.
-/
theorem eq_of_mem_iff {keys : KeySet} {l : List Gram}
    (hkeys : ∀ g, g ∈ keys ↔ s.FirstSelective records g ∧ s.HasRoom records g)
    (hl : ((s.firstSelectives records).filter fun g => s.HasRoom records g).Perm l)
    (hsorted : l.Pairwise (· < ·)) : keys = ⟨l, hsorted⟩ := by
  apply KeySet.ext
  intro g
  have hmem : g ∈ (⟨l, hsorted⟩ : KeySet) ↔ g ∈ l := Iff.rfl
  rw [hkeys, hmem, ← hl.mem_iff, List.mem_filter, mem_firstSelectives, decide_eq_true_iff]

end Computed

theorem select_exact_half :
    Config.validate { threshold := 0.5, upperK := 3, maxKeys := some 4 } = .ok () ∧
    ∃ (s : Selector) (grown : KeySet),
      Selector.ofConfig { threshold := 0.5, upperK := 3, maxKeys := some 4 } = .ok s ∧
      (∀ g, g ∈ grown ↔
        s.FirstSelective (Dataset.ofList ["abc", "abd", "xab"]).records g ∧
        s.HasRoom (Dataset.ofList ["abc", "abd", "xab"]).records g) ∧
      s.select (Dataset.ofList ["abc", "abd", "xab"]).records =
        (if false then grown.suffixFree else grown) ∧
      (s.select (Dataset.ofList ["abc", "abd", "xab"]).records).PrefixFree ∧
      s.select (Dataset.ofList ["abc", "abd", "xab"]).records =
        ⟨["bc", "bd", "c", "d", "x"].map textBytes, by decide +kernel⟩ := by
  obtain ⟨s, grown, hs, hgrown, hselect, hfree⟩ := select_exact
    (Dataset.ofList ["abc", "abd", "xab"]) { threshold := 0.5, upperK := 3, maxKeys := some 4 } rfl
  refine ⟨rfl, s, grown, hs, hgrown, hselect, hfree, ?_⟩
  -- The five short keys reach the bound, so that abc and abd have no room.
  obtain rfl := Except.ok.inj ((ofConfig_of_validate rfl).symm.trans hs)
  rw [hselect]
  exact eq_of_mem_iff hgrown (by decide +kernel) _

end GramIndex.Selector
