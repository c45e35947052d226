import GramIndex.Index
import GramIndex.Proofs.ParallelSelection
import GramIndex.Proofs.Postings

/-!
This module contains what holds of every index over a dataset, however it was built: its keys can be
scanned for, and the posting list of a key has exactly the records that contain the key.
-/

namespace GramIndex.Index

/--
An index that was built over a dataset, from selected keys or from keys chosen elsewhere.
-/
inductive BuiltOver (data : Dataset) : Index → Prop where
  | selected {index : Index} (config : Config) (h : Index.build data config = .ok index) :
    BuiltOver data index
  | given {index : Index} (keys : KeySet) (upperK : UInt64)
    (h : Index.fromKeys data keys upperK = .ok index) : BuiltOver data index

/--
The keys of an index can be scanned for, and its posting lists come from a scan of the dataset.
-/
structure Scans (index : Index) (data : Dataset) : Prop where
  recordCount_eq : index.recordCount = data.size
  size_le : data.size ≤ Dataset.maxSize
  scannable : index.keys.Scannable index.config.upperK.toNat
  postings_eq :
    index.postings = Postings.build index.keys index.config.upperK.toNat data.records

theorem ofSelected_postings (data : Dataset) (config : Config) (keys : KeySet)
    (pool : Option Pool) :
    (ofSelected data config keys pool).postings =
      Postings.build keys config.upperK.toNat data.records := by
  unfold ofSelected
  cases pool with
  | none => rfl
  | some pool =>
    simp only
    rw [Postings.buildParallel_eq]

theorem scans_ofSelected {data : Dataset} {config : Config} {keys : KeySet} {pool : Option Pool}
    (hsize : data.size ≤ Dataset.maxSize) (hkeys : keys.Scannable config.upperK.toNat) :
    (ofSelected data config keys pool).Scans data where
  recordCount_eq := rfl
  size_le := hsize
  scannable := hkeys
  postings_eq := ofSelected_postings data config keys pool

theorem scannable_select (s : Selector) (records : List Gram) :
    (s.select records).Scannable s.upperK where
  prefixFree := by
    apply Selector.prefixFree_of_firstSelective
    intro g hg
    exact Selector.firstSelective_of_mem_select hg
  ne_nil _ hkey := (Selector.firstSelective_of_mem_select hkey).ne_nil
  length_le _ hkey := (Selector.firstSelective_of_mem_select hkey).length_le

theorem eq_of_ofConfig {config : Config} {s : Selector} (h : Selector.ofConfig config = .ok s) :
    s = ⟨config.threshold, config.upperK.toNat, config.suffixFree,
      config.maxKeys.map UInt64.toNat⟩ := by
  unfold Selector.ofConfig at h
  split at h
  · simp at h
  · exact (Except.ok.inj h).symm

/--
A build selects the keys that a selection in turn selects, with a pool or without.
-/
theorem exists_of_build {data : Dataset} {config : Config} {index : Index}
    (h : Index.build data config = .ok index) :
    ∃ s pool, Selector.ofConfig config = .ok s ∧ data.size ≤ Dataset.maxSize ∧
      index = ofSelected data config (s.select data.records) pool := by
  unfold build buildOn at h
  split at h
  · cases h
  · next s hs =>
    split at h
    · cases h
    · next hsize =>
      split at h
      · have hindex := Except.ok.inj h
        rw [Selector.selectParallel_eq] at hindex
        exact ⟨s, some _, hs, Nat.le_of_not_lt hsize, hindex.symm⟩
      · exact ⟨s, none, hs, Nat.le_of_not_lt hsize, (Except.ok.inj h).symm⟩

/--
A machine decides about one thing in a build: whether the workers start. Where they do, the order of
their counts does not show in the index.
-/
theorem buildOn_eq (machine : Machine) (data : Dataset) (config : Config) :
    buildOn machine data config =
      (build data config).bind fun index =>
        if 1 < config.threads.toNat then
          match machine.startFailure config.threads.toNat with
          | some reason => .error (.workerPool reason)
          | none => .ok index
        else
          .ok index := by
  unfold build buildOn
  cases Selector.ofConfig config with
  | error e => rfl
  | ok s =>
    simp only [Selector.selectParallel_eq, Machine.inTurn]
    split
    · rfl
    · cases machine.startFailure config.threads.toNat with
      | none => split <;> rfl
      | some reason => split <;> rfl

theorem exists_build {data : Dataset} {c : Config} (h : c.validate = .ok ())
    (hsize : data.size ≤ Dataset.maxSize) : ∃ index, build data c = .ok index := by
  unfold build buildOn
  rw [Selector.ofConfig_of_validate h]
  simp only [if_neg (Nat.not_lt.2 hsize)]
  split
  · exact ⟨_, rfl⟩
  · exact ⟨_, rfl⟩

/--
The keys of an index that selected them, if none are dropped for ending with others.
-/
theorem mem_keys_of_build {data : Dataset} {config : Config} {index : Index} {s : Selector}
    (h : Index.build data config = .ok index) (hs : Selector.ofConfig config = .ok s)
    (hplain : config.suffixFree = false) {g : Gram} :
    g ∈ index.keys ↔ s.FirstSelective data.records g ∧ s.HasRoom data.records g := by
  obtain ⟨_, pool, hselector, _, rfl⟩ := exists_of_build h
  rw [hs] at hselector
  cases hselector
  apply Selector.mem_select
  rw [eq_of_ofConfig hs]
  exact hplain

theorem scans_of_build {data : Dataset} {config : Config} {index : Index}
    (h : Index.build data config = .ok index) : index.Scans data := by
  obtain ⟨s, pool, hs, hsize, rfl⟩ := exists_of_build h
  apply scans_ofSelected hsize
  have hkeys := scannable_select s data.records
  rw [eq_of_ofConfig hs] at hkeys ⊢
  exact hkeys

/--
All of a built index is told by its keys.
-/
theorem eq_of_build {data : Dataset} {config : Config} {index : Index}
    (h : Index.build data config = .ok index) :
    index = ofSelected data config index.keys none := by
  obtain ⟨s, pool, _, _, rfl⟩ := exists_of_build h
  have hpostings := ofSelected_postings data config (s.select data.records) pool
  unfold ofSelected at hpostings ⊢
  simp only at hpostings ⊢
  rw [hpostings]

theorem unusable_iff {keys : KeySet} :
    (keys.toList.any List.isEmpty || !keys.isPrefixFree) = true ↔
      [] ∈ keys ∨ ¬ keys.PrefixFree := by
  rw [Bool.or_eq_true, Bool.not_eq_true', ← Bool.not_eq_true, KeySet.isPrefixFree_iff,
    List.any_eq_true]
  simp

theorem usable_iff {keys : KeySet} :
    ¬ (keys.toList.any List.isEmpty || !keys.isPrefixFree) = true ↔
      [] ∉ keys ∧ keys.PrefixFree := by
  rw [unusable_iff, not_or, not_not]

theorem exists_of_fromKeys {data : Dataset} {keys : KeySet} {upperK : UInt64} {index : Index}
    (h : Index.fromKeys data keys upperK = .ok index) :
    keys.Scannable upperK.toNat ∧ data.size ≤ Dataset.maxSize ∧
      index = ofSelected data { upperK, threshold := 1 } keys none := by
  unfold fromKeys at h
  split at h
  · simp at h
  · split at h
    · simp at h
    · next hvalid =>
      split at h
      · simp at h
      · next hshort =>
        split at h
        · simp at h
        · next hsize =>
          refine ⟨?_, Nat.le_of_not_lt hsize, (Except.ok.inj h).symm⟩
          obtain ⟨hnil, hfree⟩ := usable_iff.1 hvalid
          simp only [List.find?_eq_none, decide_eq_true_eq, Nat.not_lt] at hshort
          constructor
          · exact hfree
          · intro key hkey heq
            rw [heq] at hkey
            exact hnil hkey
          · exact hshort

theorem scans_of_fromKeys {data : Dataset} {keys : KeySet} {upperK : UInt64} {index : Index}
    (h : Index.fromKeys data keys upperK = .ok index) : index.Scans data := by
  obtain ⟨hkeys, hsize, rfl⟩ := exists_of_fromKeys h
  exact scans_ofSelected hsize hkeys

theorem BuiltOver.scans {data : Dataset} {index : Index} (h : BuiltOver data index) :
    index.Scans data := by
  cases h with
  | selected config h => exact scans_of_build h
  | given keys upperK h => exact scans_of_fromKeys h

namespace Scans

variable {data : Dataset} {index : Index}

theorem mem_postingList (h : index.Scans data) {key : Gram} {id : RecordId} :
    id ∈ index.postingList key ↔
      key ∈ index.keys ∧ ∃ record, data.records[id]? = some record ∧ key <:+: record := by
  unfold postingList
  rw [h.postings_eq]
  by_cases hkey : key ∈ index.keys
  · rw [Postings.find?_build_of_mem hkey, Option.getD_some, Postings.mem_found]
    simp only [KeySet.leads_min_longest, h.scannable.leads_iff, hkey, true_and]
  · rw [Postings.find?_build_of_not_mem hkey, Option.getD_none]
    simp [hkey]

theorem postingList_sorted (h : index.Scans data) {key : Gram} :
    (index.postingList key).Pairwise (· < ·) := by
  unfold postingList
  rw [h.postings_eq]
  by_cases hkey : key ∈ index.keys
  · rw [Postings.find?_build_of_mem hkey, Option.getD_some]
    exact Postings.found_sorted
  · rw [Postings.find?_build_of_not_mem hkey, Option.getD_none]
    exact .nil

theorem length_postingList (h : index.Scans data) {key : Gram} (hkey : key ∈ index.keys) :
    (index.postingList key).length = Selector.frequency data.records key := by
  unfold postingList Selector.frequency
  rw [h.postings_eq, Postings.find?_build_of_mem hkey, Option.getD_some,
    Postings.length_found]
  apply List.countP_congr
  intro record _
  rw [List.contains_iff_mem, KeySet.mem_hits, KeySet.leads_min_longest, h.scannable.leads_iff,
    Gram.occursIn_iff]
  exact and_iff_right hkey

theorem mem_coveringKeys (h : index.Scans data) {key bytes : Gram} :
    key ∈ index.coveringKeys bytes ↔ key ∈ index.keys ∧ key <:+: bytes := by
  unfold coveringKeys
  rw [List.mem_eraseDups]
  exact h.scannable.longest.mem_hits

end Scans

/--
The keys and posting lists of an index over a dataset: the keys are in byte order, none of them is
empty, too long or the start of another one, and the list of any gram has, in ascending order, the
records that contain the gram if it is a key, and no records otherwise.
-/
structure Represents (index : Index) (data : Dataset) : Prop where
  recordCount_eq : index.recordCount = data.size
  keys_eq : index.postings.entries.map Prod.fst = index.keys.toList
  keys_sorted : index.keys.toList.Pairwise (· < ·)
  ne_nil : ∀ key ∈ index.keys, key ≠ []
  length_le : ∀ key ∈ index.keys, key.length ≤ index.config.upperK.toNat
  prefixFree : index.keys.PrefixFree
  length_le_maxKeyLength : ∀ key ∈ index.keys, key.length ≤ index.maxKeyLength
  exists_longest : index.keys.toList = [] ∧ index.maxKeyLength = 0 ∨
    ∃ key ∈ index.keys, key.length = index.maxKeyLength
  list_sorted : ∀ g, (index.postingList g).Pairwise (· < ·)
  mem_list : ∀ g ∈ index.keys, ∀ id,
    id ∈ index.postingList g ↔ ∃ record, data.records[id]? = some record ∧ g <:+: record
  list_eq_nil : ∀ g, g ∉ index.keys → index.postingList g = []

theorem Scans.represents {data : Dataset} {index : Index} (h : index.Scans data) :
    index.Represents data where
  recordCount_eq := h.recordCount_eq
  keys_eq := by
    rw [h.postings_eq]
    exact (Postings.exact_build _ _ _).keys_eq
  keys_sorted := index.keys.sorted
  ne_nil := h.scannable.ne_nil
  length_le := h.scannable.length_le
  prefixFree := h.scannable.prefixFree
  length_le_maxKeyLength _ hkey := KeySet.length_le_longest hkey
  exists_longest := index.keys.exists_length_eq_longest
  list_sorted _ := h.postingList_sorted
  mem_list g hg id := by
    rw [h.mem_postingList]
    exact and_iff_right hg
  list_eq_nil g hg := by
    apply List.eq_nil_iff_forall_not_mem.2
    intro id hid
    exact hg (h.mem_postingList.1 hid).1

/--
An index that selected its keys has records for each of them, and few enough of them.
-/
theorem selective_of_build {data : Dataset} {config : Config} {index : Index}
    (h : Index.build data config = .ok index) {key : Gram} (hkey : key ∈ index.keys) :
    index.postingList key ≠ [] ∧
      Float.ofNat (index.postingList key).length / Float.ofNat index.recordCount ≤
        config.threshold := by
  have hscans := scans_of_build h
  have hlength := hscans.length_postingList hkey
  obtain ⟨s, pool, hs, _, rfl⟩ := exists_of_build h
  have hfirst : s.FirstSelective data.records key := Selector.firstSelective_of_mem_select hkey
  constructor
  · apply List.ne_nil_of_length_pos
    rw [hlength, Selector.frequency_pos_iff]
    exact hfirst.occurs
  · have hselective := hfirst.selective
    unfold Selector.Selective Selector.isSelective at hselective
    rw [eq_of_ofConfig hs, Dataset.length_records, decide_eq_true_iff] at hselective
    rw [hlength]
    exact hselective

/--
Every index over a dataset represents it, with the longest key length that was asked for. If it
selected its keys, every key has records, and the fraction of them is within the threshold.
-/
theorem represents_of_builtOver {data : Dataset} {index : Index} (h : BuiltOver data index) :
    index.Represents data ∧
      (∀ config, Index.build data config = .ok index →
        index.config.upperK = config.upperK ∧ ∀ key ∈ index.keys,
          index.postingList key ≠ [] ∧
            Float.ofNat (index.postingList key).length / Float.ofNat index.recordCount ≤
              config.threshold) ∧
      ∀ keys upperK, Index.fromKeys data keys upperK = .ok index →
        index.config.upperK = upperK ∧ index.keys = keys := by
  refine ⟨h.scans.represents, ?_, ?_⟩
  · intro config hbuild
    refine ⟨?_, fun key hkey => selective_of_build hbuild hkey⟩
    obtain ⟨s, pool, _, _, rfl⟩ := exists_of_build hbuild
    rfl
  · intro keys upperK hgiven
    obtain ⟨_, _, rfl⟩ := exists_of_fromKeys hgiven
    exact ⟨rfl, rfl⟩

theorem represents_of_builtOver_half :
    ∃ index, Index.build (Dataset.ofList ["abc", "abd", "xab"])
        { threshold := 0.5, upperK := 3, threads := 2 } = .ok index ∧
      index.Represents (Dataset.ofList ["abc", "abd", "xab"]) ∧
      index.config.upperK = 3 ∧ (∀ key ∈ index.keys, index.postingList key ≠ [] ∧
        Float.ofNat (index.postingList key).length / Float.ofNat index.recordCount ≤ 0.5) ∧
      index.postings.entries = [(textBytes "abc", [0]), (textBytes "abd", [1]),
        (textBytes "bc", [0]), (textBytes "bd", [1]), (textBytes "c", [0]), (textBytes "d", [1]),
        (textBytes "x", [2])] := by
  obtain ⟨index, hbuild⟩ := @exists_build (Dataset.ofList ["abc", "abd", "xab"])
    { threshold := 0.5, upperK := 3, threads := 2 } rfl (by decide)
  obtain ⟨hrepresents, hselected, _⟩ := represents_of_builtOver (.selected _ hbuild)
  obtain ⟨hupper, hlists⟩ := hselected _ hbuild
  have hkeys : index.keys =
      ⟨["abc", "abd", "bc", "bd", "c", "d", "x"].map textBytes, by decide +kernel⟩ := by
    apply Selector.eq_of_mem_iff
    · intro g
      exact mem_keys_of_build hbuild (Selector.ofConfig_of_validate rfl) rfl
    · decide +kernel
  refine ⟨index, hbuild, hrepresents, hupper, hlists, ?_⟩
  rw [(scans_of_build hbuild).postings_eq, hkeys, hupper]
  decide +kernel

end GramIndex.Index
