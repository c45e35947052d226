import GramIndex.Proofs.Chains
import GramIndex.Query

/-!
This module contains what hangs on the disjunctions of a plan. Where there are none, no literal is
lost on the way from a pattern to the keys of an index. Where there are some, each of them adds at
most one more posting list to the candidates.
-/

namespace GramIndex

namespace Plan

/--
The number of disjunctions in a plan, at any depth.
-/
def disjunctions : Plan α → Nat
  | .and l r => l.disjunctions + r.disjunctions
  | .or l r => 1 + l.disjunctions + r.disjunctions
  | .literal _ => 0
  | .null => 0

section Literals

variable {α β : Type} {p : Plan α}

theorem disjunctions_foldl_and {first : Plan α} {ps : List (Plan α)} :
    (ps.foldl .and first).disjunctions = first.disjunctions + (ps.map disjunctions).sum := by
  induction ps generalizing first with
  | nil => rfl
  | cons p ps ih =>
    rw [List.foldl_cons, ih, disjunctions, List.map_cons, List.sum_cons, Nat.add_assoc]

theorem disjunctions_all {ps : List (Plan α)} :
    (all ps).disjunctions = (ps.map disjunctions).sum := by
  cases ps with
  | nil => rfl
  | cons p ps => rw [all, disjunctions_foldl_and, List.map_cons, List.sum_cons]

theorem disjunctions_expand {f : β → Plan α} {p : Plan β} (h : ∀ b, (f b).disjunctions = 0) :
    (p.expand f).disjunctions = p.disjunctions := by
  induction p with
  | and l r ihl ihr => rw [expand, disjunctions, disjunctions, ihl, ihr]
  | or l r ihl ihr => rw [expand, disjunctions, disjunctions, ihl, ihr]
  | literal b => apply h
  | null => rfl

theorem literals_propagateNulls (h : p.disjunctions = 0) :
    p.propagateNulls.literals = p.literals := by
  induction p with
  | and l r ihl ihr =>
    rw [disjunctions] at h
    rw [literals_propagateNulls_and, ihl (by omega), ihr (by omega), literals_and]
  | or l r =>
    rw [disjunctions] at h
    omega
  | literal a => rfl
  | null => rfl

theorem disjunctions_propagateNulls_le (p : Plan α) :
    p.propagateNulls.disjunctions ≤ p.disjunctions := by
  induction p with
  | and l r ihl ihr =>
    rw [propagateNulls_and, disjunctions]
    split
    · omega
    · split
      · omega
      · rw [disjunctions]
        omega
  | or l r ihl ihr =>
    rw [propagateNulls_or, disjunctions]
    split
    · apply Nat.zero_le
    · rw [disjunctions]
      omega
  | literal a => apply Nat.le_refl
  | null => apply Nat.le_refl

end Literals

section Keys

variable {index : Index} {plan : Plan Gram}

theorem disjunctions_cover (text : Gram) : (cover index text).disjunctions = 0 := by
  rw [cover, disjunctions_all, List.map_map]
  apply List.sum_eq_zero
  intro n hn
  obtain ⟨key, _, rfl⟩ := List.mem_map.1 hn
  rfl

theorem literals_withKeys (h : plan.disjunctions = 0) :
    (plan.withKeys index).literals = plan.literals.flatMap index.coveringKeys := by
  rw [withKeys, literals_propagateNulls, literals_expand]
  · simp only [literals_cover]
  · rw [disjunctions_expand disjunctions_cover, h]

end Keys

section Bound

variable {index : Index} {plan : Plan Gram}

/--
A conjunction has no more records than one of its sides, a disjunction no more than both together.
-/
theorem card_recordSet_le {bound : Nat} {records : Finset RecordId}
    (hbound : ∀ key ∈ plan.literals, (index.postingList key).length ≤ bound)
    (h : plan.recordSet index = some records) :
    records.card ≤ (1 + plan.disjunctions) * bound := by
  induction plan generalizing records with
  | and l r ihl ihr =>
    rw [literals_and, List.forall_mem_append] at hbound
    have hside {n : Nat} (hn : n ≤ l.disjunctions + r.disjunctions) :
        (1 + n) * bound ≤ (1 + (Plan.and l r).disjunctions) * bound := by
      apply Nat.mul_le_mul_right
      apply Nat.add_le_add_left hn
    have hl := hside (Nat.le_add_right ..)
    have hr := hside (Nat.le_add_left ..)
    rw [recordSet] at h
    split at h
    · apply (ihr hbound.2 h).trans hr
    · apply (ihl hbound.1 h).trans hl
    · next left right hleft hright =>
      cases h
      apply (Finset.card_le_card Finset.inter_subset_left).trans
      apply (ihl hbound.1 hleft).trans hl
  | or l r ihl ihr =>
    rw [literals_or, List.forall_mem_append] at hbound
    rw [recordSet] at h
    split at h
    · next left right hleft hright =>
      cases h
      calc (left ∪ right).card
        _ ≤ left.card + right.card := Finset.card_union_le left right
        _ ≤ (1 + l.disjunctions) * bound + (1 + r.disjunctions) * bound :=
          Nat.add_le_add (ihl hbound.1 hleft) (ihr hbound.2 hright)
        _ = (1 + (Plan.or l r).disjunctions) * bound := by
          rw [← Nat.add_mul, disjunctions]
          congr 1
          omega
    · cases h
  | literal key =>
    cases h
    apply (List.toFinset_card_le _).trans
    rw [disjunctions, Nat.add_zero, Nat.one_mul]
    apply hbound key List.mem_cons_self
  | null => cases h

theorem length_evaluate_le (h : ∀ key, (index.postingList key).Pairwise (· < ·)) {bound : Nat}
    {ids : List RecordId} (hbound : ∀ key ∈ plan.literals, (index.postingList key).length ≤ bound)
    (hids : plan.evaluate index = some ids) : ids.length ≤ (1 + plan.disjunctions) * bound := by
  rw [(answers_evaluate h plan).unique (answers_recordSet plan), Option.map_eq_some_iff] at hids
  obtain ⟨records, hrecords, rfl⟩ := hids
  rw [Finset.length_sort]
  apply card_recordSet_le hbound hrecords

/--
The length of the longest posting list among those of the literals, if there are any.
-/
def longestPosting (index : Index) (plan : Plan Gram) : Option Nat :=
  (plan.literals.map fun key => (index.postingList key).length).max?

theorem longestPosting_eq_some_iff {longest : Nat} :
    plan.longestPosting index = some longest ↔
      (∃ key ∈ plan.literals, (index.postingList key).length = longest) ∧
        ∀ key ∈ plan.literals, (index.postingList key).length ≤ longest := by
  rw [longestPosting, List.max?_eq_some_iff, List.mem_map, List.forall_mem_map]

theorem NullFree.exists_longestPosting (h : plan.NullFree) (index : Index) :
    ∃ longest, plan.longestPosting index = some longest := by
  apply Option.ne_none_iff_exists'.1
  intro hnone
  rw [longestPosting, List.max?_eq_none_iff, List.map_eq_nil_iff] at hnone
  exact h.literals_ne_nil hnone

end Bound

end Plan

namespace Index

variable {index : Index}

theorem mem_findAllKeys {pattern : String} {key : Gram} :
    key ∈ index.findAllKeys pattern ↔
      ∃ text ∈ (Compiler.compile default pattern).literals, key ∈ index.coveringKeys text := by
  rw [findAllKeys, List.mem_eraseDups, List.mem_flatMap]

theorem mem_findAllKeys_of_mem_prepare {pattern : String} {key : Gram}
    (hkey : key ∈ ((Query.compile pattern).prepare index).literals) :
    key ∈ index.findAllKeys pattern := by
  have hcovering := (Plan.literals_withKeys_sublist _).subset hkey
  rw [List.mem_flatMap] at hcovering
  obtain ⟨text, htext, hmem⟩ := hcovering
  rw [mem_findAllKeys]
  exact ⟨text, Plan.mem_of_mem_literals_propagateNulls htext, hmem⟩

theorem literals_prepare {pattern : String}
    (h : (Compiler.compile default pattern).disjunctions = 0) :
    ((Query.compile pattern).prepare index).literals =
      (Compiler.compile default pattern).literals.flatMap index.coveringKeys := by
  have hroot : (Query.compile pattern).root.disjunctions = 0 := by
    apply Nat.eq_zero_of_le_zero
    rw [← h]
    apply Plan.disjunctions_propagateNulls_le
  calc ((Query.compile pattern).prepare index).literals
    _ = (Query.compile pattern).root.literals.flatMap index.coveringKeys :=
      Plan.literals_withKeys hroot
    _ = (Compiler.compile default pattern).literals.flatMap index.coveringKeys := by
      rw [← Plan.literals_propagateNulls h]
      rfl

/--
For every index over a dataset, the keys of a pattern are keys of the index, each of them once, and
all keys that the prepared plan of the pattern looks up are among them. If the plan of the pattern
has no disjunction, then the prepared plan looks up all of them, for the first time in the same
order.
-/
theorem findAllKeys_covers {data : Dataset} (h : index.BuiltOver data) (pattern : String) :
    (index.findAllKeys pattern).Nodup ∧
    (∀ key ∈ index.findAllKeys pattern, key ∈ index.keys) ∧
    (∀ key ∈ ((Query.compile pattern).prepare index).literals,
      key ∈ index.findAllKeys pattern) ∧
    ((Compiler.compile default pattern).disjunctions = 0 →
      (∀ key, key ∈ index.findAllKeys pattern ↔
        key ∈ ((Query.compile pattern).prepare index).literals) ∧
      index.findAllKeys pattern = ((Query.compile pattern).prepare index).literals.eraseDups) := by
  refine ⟨?_, ?_, fun _ => mem_findAllKeys_of_mem_prepare, ?_⟩
  · apply Gram.nodup_eraseDups
  · intro key hkey
    obtain ⟨text, _, hmem⟩ := mem_findAllKeys.1 hkey
    exact (h.scans.mem_coveringKeys.1 hmem).1
  · intro hnone
    rw [literals_prepare hnone]
    constructor
    · intro key
      rw [mem_findAllKeys, List.mem_flatMap]
    · rfl

theorem findAllKeys_covers_gap :
    (Compiler.compile default "(ba)(.*)(ab)").disjunctions = 0 ∧
    ∃ index, Index.fromKeys (Dataset.ofList ["ab", "ba"]) ⟨[[97], [98]], by decide⟩ 1 = .ok index ∧
      index.findAllKeys "(ba)(.*)(ab)" = [[98], [97]] ∧
      index.findAllKeys "(ba)(.*)(ab)" =
        ((Query.compile "(ba)(.*)(ab)").prepare index).literals.eraseDups ∧
      ((Query.compile "(ba)(.*)(ab)").prepare index).literals = [[98], [97], [97], [98]] := by
  have hplan : Compiler.compile default "(ba)(.*)(ab)" =
      .and (.and (.literal [98, 97]) .null) (.literal [97, 98]) := by with_unfolding_all rfl
  have hnone : (Compiler.compile default "(ba)(.*)(ab)").disjunctions = 0 := by rw [hplan]; rfl
  refine ⟨hnone, _, rfl, ?_, ?_, ?_⟩
  · rw [findAllKeys, hplan]
    with_unfolding_all rfl
  · exact ((@findAllKeys_covers _ (Dataset.ofList ["ab", "ba"])
      (.given ⟨[[97], [98]], by decide⟩ 1 rfl) "(ba)(.*)(ab)").2.2.2 hnone).2
  · rw [literals_prepare hnone, hplan]
    with_unfolding_all rfl

end Index

namespace Query

/--
Where an index that selected its keys helps, it helps by its threshold: there are at most as many
candidates as the longest posting list of the prepared plan has records, and as many again for each
disjunction of that plan, and the fraction of all records in this list is within the threshold.
-/
theorem length_candidates_le {data : Dataset} {config : Config} {index : Index}
    (h : Index.build data config = .ok index) (q : Query) {ids : List RecordId}
    (hids : q.candidates index = some ids) :
    ∃ longest, (q.prepare index).longestPosting index = some longest ∧
      ids.length ≤ (1 + (q.prepare index).disjunctions) * longest ∧
      Float.ofNat longest / Float.ofNat index.recordCount ≤ config.threshold := by
  have hscans := Index.scans_of_build h
  have hfree := Plan.nullFree_withKeys_of_evaluate hscans hids
  obtain ⟨longest, hlongest⟩ := hfree.exists_longestPosting index
  obtain ⟨⟨key, hkey, hlength⟩, hbound⟩ := Plan.longestPosting_eq_some_iff.1 hlongest
  refine ⟨longest, hlongest, ?_, ?_⟩
  · apply Plan.length_evaluate_le (fun _ => hscans.postingList_sorted) hbound hids
  · rw [← hlength]
    exact (Index.selective_of_build h (Plan.mem_keys_of_mem_literals_withKeys hscans hkey)).2

theorem length_candidates_le_half :
    ∃ index ids, Index.build (Dataset.ofList ["ab", "b", "c", "ca"])
        { threshold := 0.5, upperK := 1 } = .ok index ∧
      (compile "a|b").candidates index = some ids ∧
      ∃ longest, ((compile "a|b").prepare index).longestPosting index = some longest ∧
        ids.length ≤ (1 + ((compile "a|b").prepare index).disjunctions) * longest ∧
        Float.ofNat longest / Float.ofNat index.recordCount ≤ 0.5 := by
  obtain ⟨index, hindex⟩ := @Index.exists_build (Dataset.ofList ["ab", "b", "c", "ca"])
    { threshold := 0.5, upperK := 1 } rfl (by decide)
  have hkey (b : UInt8)
      (hoccurs : ∃ record ∈ (Dataset.ofList ["ab", "b", "c", "ca"]).records, [b] <:+: record)
      (hselective : Selector.Selective ⟨0.5, 1, false, none⟩
        (Dataset.ofList ["ab", "b", "c", "ca"]).records [b]) : [b] ∈ index.keys := by
    rw [Index.mem_keys_of_build hindex (Selector.ofConfig_of_validate rfl) rfl]
    refine ⟨Selector.firstSelective_singleton (by decide) hoccurs hselective, ?_⟩
    left
    simp
  have ha : [97] ∈ index.keys := by
    apply hkey
    · exact ⟨[97, 98], by decide +kernel, by decide⟩
    · unfold Selector.Selective
      decide +kernel
  have hb : [98] ∈ index.keys := by
    apply hkey
    · exact ⟨[97, 98], by decide +kernel, by decide⟩
    · unfold Selector.Selective
      decide +kernel
  cases hids : (compile "a|b").candidates index with
  | none =>
    have hroot : (compile "a|b").root = .or (.literal [97]) (.literal [98]) := by
      with_unfolding_all rfl
    have hscans := Index.scans_of_build hindex
    rw [candidates, prepare, hroot, Plan.evaluate_withKeys_eq_none_iff hscans,
      Plan.withKeys_eq_null_iff hscans] at hids
    cases hids with
    | inl hnone => exact absurd (List.infix_refl [97]) (hnone [97] ha)
    | inr hnone => exact absurd (List.infix_refl [98]) (hnone [98] hb)
  | some ids => exact ⟨index, ids, hindex, hids, length_candidates_le hindex _ hids⟩

end Query

end GramIndex
