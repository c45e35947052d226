import GramIndex.Proofs.Selection
import GramIndex.Proofs.Shards
import GramIndex.Selection.Parallel

/-!
This module contains the reason why a pool of workers selects the same keys: in each pass its tally
and its sorting are those of a pass in turn, in whatever order the counts arrive.
-/

namespace GramIndex.Selector

variable {s : Selector} {records : List Gram} {pool : Pool} {visit : Gram → List Gram}

theorem counts_countSharded (arrival : Arrival) :
    (countSharded records pool arrival visit).Counts (records.flatMap visit) := by
  apply (Tally.counts_bumpAll_empty _).perm
  apply (arrival.perm _).trans
  rw [pool.flatten_flatMap_slice]

theorem countSharded_eq_ofList (arrival : Arrival) :
    countSharded records pool arrival visit = .ofList (records.flatMap visit) :=
  (counts_countSharded arrival).unique (Tally.counts_ofList _)

theorem count_flatMap_le (hnodup : ∀ record, (visit record).Nodup) (g : Gram) :
    (records.flatMap visit).count g ≤ records.length := by
  induction records with
  | nil => exact Nat.le_refl 0
  | cons record records ih =>
    have hone : (visit record).count g ≤ 1 := List.nodup_iff_count_le_one.1 (hnodup record) g
    rw [List.flatMap_cons, List.count_append, List.length_cons]
    omega

/--
Every record is counted once at most, so that the counts fit into 32 bits as record ids do.
-/
theorem count_lt_of_mem_countSharded {arrival : Arrival} (hnodup : ∀ record, (visit record).Nodup)
    (hsize : records.length ≤ Dataset.maxSize) {g : Gram} {n : Nat}
    (h : (g, n) ∈ (countSharded records pool arrival visit).entries) : n < UInt32.size := by
  obtain ⟨_, rfl⟩ := (counts_countSharded arrival g n).1 h
  have hle : (records.flatMap visit).count g ≤ records.length := count_flatMap_le hnodup g
  have hmax : Dataset.maxSize < UInt32.size := by decide
  omega

theorem map_filter_eq_flatMap (p : α → Bool) (f : α → β) (l : List α) :
    (l.filter p).map f = l.flatMap fun a => if p a then [f a] else [] := by
  induction l with
  | nil => rfl
  | cons a l ih =>
    rw [List.flatMap_cons, ← ih, List.filter_cons]
    split
    · rfl
    · rfl

theorem split_keys (total : Nat) (p : Gram × Nat → Bool) (counts : List (Gram × Nat)) :
    (s.split total (counts.filter p)).keys =
      counts.flatMap fun entry =>
        if s.isSelective entry.2 total && p entry then [entry.1] else [] := by
  rw [← map_filter_eq_flatMap fun entry : Gram × Nat => s.isSelective entry.2 total && p entry]
  unfold split
  rw [List.partition_eq_filter_filter, List.filter_filter]

theorem split_expand (total : Nat) (p : Gram × Nat → Bool) (counts : List (Gram × Nat)) :
    (s.split total (counts.filter p)).expand =
      counts.flatMap fun entry =>
        if !s.isSelective entry.2 total && p entry then [entry.1] else [] := by
  rw [← map_filter_eq_flatMap fun entry : Gram × Nat => !s.isSelective entry.2 total && p entry]
  unfold split
  simp only [List.partition_eq_filter_filter, List.filter_filter, Function.comp_def]

theorem splitSharded_eq (total : Nat) (keep : Gram → Bool) (counts : List (Gram × Nat)) :
    s.splitSharded total pool keep counts =
      s.split total (counts.filter fun (gram, _) => keep gram) := by
  have hparts (f : Split → List Gram) :
      (pool.mapShards counts.length fun shard =>
        s.split total ((shard.slice counts).filter fun (gram, _) => keep gram)).flatMap f =
        (pool.mapShards counts.length fun shard =>
          f (s.split total ((shard.slice counts).filter fun (gram, _) => keep gram))).flatten := by
    unfold Pool.mapShards
    rw [List.flatMap_def, List.map_map]
    rfl
  have hkeys : (s.splitSharded total pool keep counts).keys =
      (s.split total (counts.filter fun (gram, _) => keep gram)).keys := by
    simp only [splitSharded, hparts, split_keys]
    exact pool.flatten_flatMap_slice counts _
  have hexpand : (s.splitSharded total pool keep counts).expand =
      (s.split total (counts.filter fun (gram, _) => keep gram)).expand := by
    simp only [splitSharded, hparts, split_expand]
    exact pool.flatten_flatMap_slice counts _
  cases hsharded : s.splitSharded total pool keep counts
  cases hsplit : s.split total (counts.filter fun (gram, _) => keep gram)
  simp_all

theorem passSharded_eq_pass (arrival : Arrival) (k : Nat) (expand : List Gram) :
    s.passSharded records pool arrival k expand = s.pass records k expand := by
  unfold passSharded pass
  simp only [countSharded_eq_ofList, splitSharded_eq, List.filter_true]

theorem selectParallel_eq (s : Selector) (records : List Gram) (pool : Pool)
    (arrivals : Nat → Arrival) : s.selectParallel records pool arrivals = s.select records := by
  unfold selectParallel select
  simp only [passSharded_eq_pass]

/--
For a valid configuration, a pool of any size selects the keys that a selection in turn selects, in
whatever order the counts of its workers arrive in the pass for each length. This holds because no
pass sorts its grams in another way, and no count exceeds 32 bits.
-/
theorem selectParallel_eq_select (data : Dataset) (hsize : data.size ≤ Dataset.maxSize)
    (c : Config) (h : c.validate = .ok ()) (pool : Pool) (arrivals : Nat → Arrival) :
    ∃ s, Selector.ofConfig c = .ok s ∧
      (∀ k expand,
        (∀ visit ∈ [grams k, extensions (.ofList expand) k],
          ∀ entry ∈ (countSharded data.records pool (arrivals k) visit).entries,
            entry.2 < UInt32.size) ∧
        s.passSharded data.records pool (arrivals k) k expand = s.pass data.records k expand) ∧
      s.selectParallel data.records pool arrivals = s.select data.records := by
  rw [← data.length_records] at hsize
  refine ⟨_, ofConfig_of_validate h, ?_, selectParallel_eq _ data.records pool arrivals⟩
  intro k expand
  refine ⟨?_, passSharded_eq_pass (arrivals k) k expand⟩
  intro visit hvisit entry hentry
  have hnodup : ∀ record, (visit record).Nodup := by
    intro record
    simp only [List.mem_cons, List.not_mem_nil, or_false] at hvisit
    cases hvisit with
    | inl hvisit =>
      rw [hvisit]
      exact KeySet.nodup_toList _
    | inr hvisit =>
      rw [hvisit]
      exact KeySet.nodup_toList _
  exact count_lt_of_mem_countSharded hnodup hsize hentry

theorem selectParallel_eq_select_reversed :
    (Dataset.ofList ["abc", "abd", "xab"]).size ≤ Dataset.maxSize ∧
    Config.validate { threshold := 0.5, upperK := 3, maxKeys := some 4 } = .ok () ∧
    ∃ s, Selector.ofConfig { threshold := 0.5, upperK := 3, maxKeys := some 4 } = .ok s ∧
      s.selectParallel (Dataset.ofList ["abc", "abd", "xab"]).records ⟨2, by decide⟩
          (fun _ => ⟨fun runs => runs.flatten.reverse, fun _ => List.reverse_perm _⟩) =
        s.select (Dataset.ofList ["abc", "abd", "xab"]).records ∧
      (s.selectParallel (Dataset.ofList ["abc", "abd", "xab"]).records ⟨2, by decide⟩
          fun _ => ⟨fun runs => runs.flatten.reverse, fun _ => List.reverse_perm _⟩).toList =
        ["bc", "bd", "c", "d", "x"].map textBytes := by
  refine ⟨by decide, rfl, ?_⟩
  obtain ⟨s, hs, _, heq⟩ := selectParallel_eq_select (Dataset.ofList ["abc", "abd", "xab"])
    (by decide) { threshold := 0.5, upperK := 3, maxKeys := some 4 } rfl ⟨2, by decide⟩
    fun _ => ⟨fun runs => runs.flatten.reverse, fun _ => List.reverse_perm _⟩
  refine ⟨s, hs, heq, ?_⟩
  obtain rfl := Except.ok.inj ((ofConfig_of_validate rfl).symm.trans hs)
  have hsorted : (["bc", "bd", "c", "d", "x"].map textBytes).Pairwise (· < ·) := by
    decide +kernel
  rw [heq]
  exact congrArg KeySet.toList
    (eq_of_mem_iff (fun _ => mem_select rfl) (by decide +kernel) hsorted)

end GramIndex.Selector
