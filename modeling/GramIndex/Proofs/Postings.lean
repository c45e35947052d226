import GramIndex.Postings
import GramIndex.Proofs.KeySets
import GramIndex.Proofs.Shards

/-!
This module contains what posting lists hold. While records are scanned in order, the list of a key
grows by the ids of the records in which a scan finds the key, in ascending order and once each.
-/

namespace GramIndex

theorem lookup_map_of_mem {key : Gram} {keys : List Gram} {f : Gram → α} (h : key ∈ keys) :
    (keys.map fun key => (key, f key)).lookup key = some (f key) := by
  induction keys with
  | nil => simp at h
  | cons first keys ih =>
    rw [List.map_cons, List.lookup_cons]
    split
    · next heq =>
      rw [eq_of_beq heq]
    · next hne =>
      apply ih
      apply (List.mem_cons.1 h).resolve_left
      intro heq
      rw [heq] at hne
      simp at hne

theorem lookup_map_of_not_mem {key : Gram} {keys : List Gram} {f : Gram → α} (h : key ∉ keys) :
    (keys.map fun key => (key, f key)).lookup key = none := by
  induction keys with
  | nil => rfl
  | cons first keys ih =>
    rw [List.mem_cons, not_or] at h
    rw [List.map_cons, List.lookup_cons, beq_false_of_ne h.1]
    exact ih h.2

namespace Postings

variable {keys : KeySet} {bound first : Nat} {records : List Gram}

/--
The ids of the records that have a key among their hits. The first record has the id `first`.
-/
def found (keys : KeySet) (bound first : Nat) (records : List Gram) (key : Gram) : List RecordId :=
  (records.zipIdx first).filterMap fun (record, id) =>
    if (keys.hits bound record).contains key then some id else none

theorem mem_found {key : Gram} {id : RecordId} :
    id ∈ found keys bound 0 records key ↔
      ∃ record, records[id]? = some record ∧ keys.Leads bound key ∧ key <:+: record := by
  simp [found, List.mem_zipIdx_iff_getElem?, KeySet.mem_hits]

theorem found_sorted {key : Gram} : (found keys bound first records key).Pairwise (· < ·) := by
  unfold found
  rw [List.pairwise_filterMap]
  have hids : ((records.zipIdx first).map Prod.snd).Pairwise (· < ·) := by
    rw [List.zipIdx_map_snd]
    exact List.pairwise_lt_range'
  apply (List.pairwise_map.1 hids).imp
  intro a b hab id hid other hother
  simp only [Option.ite_none_right_eq_some, Option.some.injEq] at hid hother
  rw [← hid.2, ← hother.2]
  exact hab

theorem length_found {key : Gram} :
    (found keys bound first records key).length =
      records.countP fun record => (keys.hits bound record).contains key := by
  unfold found
  induction records generalizing first with
  | nil => rfl
  | cons record records ih =>
    rw [List.zipIdx_cons, List.filterMap_cons, List.countP_cons, ← @ih (first + 1)]
    simp only
    cases (keys.hits bound record).contains key with
    | false => rfl
    | true => rfl

namespace Lists

variable {lists : Lists} {key g : Gram} {id : RecordId} {hits : List Gram}

theorem ids_cons {ids : Array RecordId} :
    Lists.ids ((key, ids) :: lists) g = if g = key then ids.toList else lists.ids g := by
  unfold Lists.ids
  by_cases hg : g = key
  · simp [hg]
  · simp [List.lookup_cons, hg, beq_false_of_ne hg]

theorem ids_add :
    (lists.add key id).ids g =
      if g = key ∧ (lists.ids key).getLast?.all (· < id) = true then
        lists.ids g ++ [id]
      else
        lists.ids g := by
  induction lists with
  | nil =>
    rw [add, ids_cons]
    by_cases hg : g = key
    · simp [hg, ids]
    · simp [hg]
  | cons entry lists ih =>
    obtain ⟨k, ids⟩ := entry
    rw [add]
    by_cases hk : key = k
    · rw [if_pos hk, ids_cons, ids_cons, ids_cons, if_pos hk, Array.getLast?_toList, ← hk]
      by_cases hg : g = key
      · simp only [hg, if_true, true_and]
        split
        · exact Array.toList_push
        · rfl
      · simp [hg]
    · rw [if_neg hk, ids_cons, ids_cons, ids_cons, if_neg hk, ih]
      by_cases hg : g = k
      · simp [hg, Ne.symm hk]
      · simp [hg]

theorem map_fst_add (id : RecordId) (h : key ∈ lists.map Prod.fst) :
    (lists.add key id).map Prod.fst = lists.map Prod.fst := by
  induction lists with
  | nil => simp at h
  | cons entry lists ih =>
    obtain ⟨k, ids⟩ := entry
    rw [add]
    by_cases hk : key = k
    · rw [if_pos hk, List.map_cons, List.map_cons]
    · rw [List.map_cons, List.mem_cons] at h
      rw [if_neg hk, List.map_cons, List.map_cons, ih (h.resolve_left hk)]

/--
A record at the end of a list is not added again.
-/
theorem ids_foldl_add_of_last (h : (lists.ids g).getLast? = some id) :
    (hits.foldl (fun lists key => lists.add key id) lists).ids g = lists.ids g := by
  induction hits generalizing lists with
  | nil => rfl
  | cons key hits ih =>
    have hsame : (lists.add key id).ids g = lists.ids g := by
      rw [ids_add, if_neg]
      rintro ⟨heq, hlast⟩
      rw [← heq, h] at hlast
      simp at hlast
    rw [List.foldl_cons, ih, hsame]
    rw [hsame]
    exact h

theorem ids_foldl_add (h : ∀ other ∈ lists.ids g, other < id) :
    (hits.foldl (fun lists key => lists.add key id) lists).ids g =
      lists.ids g ++ if g ∈ hits then [id] else [] := by
  induction hits generalizing lists with
  | nil => simp
  | cons key hits ih =>
    rw [List.foldl_cons]
    by_cases hg : g = key
    · have hnew : (lists.add key id).ids g = lists.ids g ++ [id] := by
        rw [ids_add, if_pos]
        refine ⟨hg, ?_⟩
        rw [← hg, Option.all_eq_true]
        intro last hlast
        exact decide_eq_true (h last (List.mem_of_getLast? hlast))
      rw [ids_foldl_add_of_last, hnew]
      · simp [hg]
      · rw [hnew, List.getLast?_concat]
    · have hsame : (lists.add key id).ids g = lists.ids g := by
        rw [ids_add, if_neg]
        intro hand
        exact hg hand.1
      rw [ih, hsame]
      · simp [hg]
      · rw [hsame]
        exact h

theorem map_fst_foldl_add (h : ∀ key ∈ hits, key ∈ lists.map Prod.fst) :
    (hits.foldl (fun lists key => lists.add key id) lists).map Prod.fst = lists.map Prod.fst := by
  induction hits generalizing lists with
  | nil => rfl
  | cons key hits ih =>
    have hkey := map_fst_add id (h key List.mem_cons_self)
    rw [List.foldl_cons, ih, hkey]
    rw [hkey]
    intro other hother
    exact h other (List.mem_cons_of_mem key hother)

/--
A scan adds the records in which it finds a key to the list of the key, if the list has only records
from before.
-/
theorem ids_scan (h : ∀ other ∈ lists.ids g, other < first) :
    (lists.scan keys bound first records).ids g =
      lists.ids g ++ found keys bound first records g := by
  unfold scan found
  induction records generalizing lists first with
  | nil => simp
  | cons record records ih =>
    rw [List.zipIdx_cons, List.foldl_cons, List.filterMap_cons, ih, ids_foldl_add h]
    · by_cases hkey : g ∈ keys.hits bound record
      · simp [hkey]
      · simp [hkey]
    · intro other hother
      rw [ids_foldl_add h, List.mem_append] at hother
      cases hother with
      | inl hbefore => exact Nat.lt_succ_of_lt (h other hbefore)
      | inr hnew =>
        have heq : other = first := by
          split at hnew
          · exact List.mem_singleton.1 hnew
          · simp at hnew
        rw [heq]
        exact Nat.lt_succ_self first

theorem ids_scan_of_nil (h : lists.ids g = []) :
    (lists.scan keys bound first records).ids g = found keys bound first records g := by
  rw [ids_scan, h, List.nil_append]
  simp [h]

/--
A scan for keys that all have lists makes no new ones.
-/
theorem map_fst_scan (h : lists.map Prod.fst = keys.toList) :
    (lists.scan keys bound first records).map Prod.fst = keys.toList := by
  unfold scan
  induction records generalizing lists first with
  | nil => exact h
  | cons record records ih =>
    rw [List.zipIdx_cons, List.foldl_cons]
    apply ih
    rw [map_fst_foldl_add, h]
    intro key hkey
    rw [h]
    exact (KeySet.mem_hits.1 hkey).1.1

theorem ids_empties : (empties keys).ids g = [] := by
  unfold empties ids
  by_cases hg : g ∈ keys
  · rw [lookup_map_of_mem (f := fun _ => #[]) hg]
    rfl
  · rw [lookup_map_of_not_mem (f := fun _ => #[]) hg]
    rfl

theorem map_toList (h : (lists.map Prod.fst).Nodup) :
    (lists.map fun (key, ids) => (key, ids.toList)) =
      (lists.map Prod.fst).map fun key => (key, lists.ids key) := by
  induction lists with
  | nil => rfl
  | cons entry lists ih =>
    obtain ⟨k, ids⟩ := entry
    rw [List.map_cons, List.nodup_cons] at h
    rw [List.map_cons, List.map_cons, List.map_cons, ih h.2, ids_cons, if_pos rfl]
    congr 1
    apply List.map_congr_left
    intro key hkey
    have hne : key ≠ k := by
      intro heq
      rw [heq] at hkey
      exact h.1 hkey
    rw [ids_cons, if_neg hne]

end Lists

theorem entries_build (keys : KeySet) (bound : Nat) (records : List Gram) :
    (build keys bound records).entries =
      keys.toList.map fun key => (key, found keys (min keys.longest bound) 0 records key) := by
  have hkeys : ((Lists.empties keys).scan keys (min keys.longest bound) 0 records).map Prod.fst =
      keys.toList := by
    apply Lists.map_fst_scan
    unfold Lists.empties
    rw [List.map_map]
    exact List.map_id _
  refine (Lists.map_toList ?_).trans ?_
  · rw [hkeys]
    exact keys.nodup_toList
  · rw [hkeys]
    apply List.map_congr_left
    intro key _
    rw [Lists.ids_scan_of_nil Lists.ids_empties]

theorem zipIdx_slice (shard : Shard) (items : List α) :
    (shard.slice items).zipIdx shard.start = shard.slice (items.zipIdx 0) := by
  apply List.ext_getElem?
  intro i
  simp only [Shard.slice, List.getElem?_zipIdx, List.getElem?_take, List.getElem?_drop]
  split
  · simp
  · rfl

theorem flatten_found_slices (pool : Pool) (key : Gram) :
    (pool.mapShards records.length fun shard =>
      found keys bound shard.start (shard.slice records) key).flatten =
        found keys bound 0 records key := by
  have hlen : records.length = (records.zipIdx 0).length := by simp
  unfold found
  rw [hlen]
  simp only [zipIdx_slice]
  have h := congrArg
    (List.filterMap fun (record, id) =>
      if (keys.hits bound record).contains key then some id else none)
    (pool.flatten_slice (records.zipIdx 0))
  rw [List.filterMap_flatten] at h
  rw [← h]
  unfold Pool.mapShards
  rw [List.map_map]
  rfl

theorem buildParallel_eq (keys : KeySet) (bound : Nat) (records : List Gram) (pool : Pool) :
    buildParallel keys bound records pool = build keys bound records := by
  have hids (key : Gram) : (pool.mapShards records.length fun shard =>
      Lists.scan [] keys (min keys.longest bound) shard.start (shard.slice records)).flatMap
        (·.ids key) = found keys (min keys.longest bound) 0 records key := by
    rw [← flatten_found_slices pool]
    unfold Pool.mapShards
    rw [List.flatMap_def, List.map_map]
    congr 1
    apply List.map_congr_left
    intro shard _
    exact Lists.ids_scan_of_nil rfl
  have hentries : (buildParallel keys bound records pool).entries =
      (build keys bound records).entries := by
    rw [entries_build]
    unfold buildParallel
    simp only [hids]
    exact pool.flatten_map_slice keys.toList _
  cases hparallel : buildParallel keys bound records pool
  cases hbuild : build keys bound records
  simp_all

theorem find?_build_of_mem {key : Gram} (h : key ∈ keys) :
    (build keys bound records).find? key =
      some (found keys (min keys.longest bound) 0 records key) := by
  unfold find?
  rw [entries_build]
  exact lookup_map_of_mem (f := found keys (min keys.longest bound) 0 records) h

theorem find?_build_of_not_mem {key : Gram} (h : key ∉ keys) :
    (build keys bound records).find? key = none := by
  unfold find?
  rw [entries_build]
  exact lookup_map_of_not_mem (f := found keys (min keys.longest bound) 0 records) h

/--
Posting lists of exactly the given keys. A key that a scan can find has the records that contain it,
in ascending order, and any other key has none.
-/
structure Exact (p : Postings) (keys : KeySet) (bound : Nat) (records : List Gram) : Prop where
  keys_eq : p.entries.map Prod.fst = keys.toList
  isSome_find? : ∀ key, (p.find? key).isSome = true ↔ key ∈ keys
  sorted : ∀ key ids, p.find? key = some ids → ids.Pairwise (· < ·)
  mem_iff : ∀ key ids, p.find? key = some ids → keys.Leads bound key →
    ∀ id, id ∈ ids ↔ ∃ record, records[id]? = some record ∧ key <:+: record
  eq_nil : ∀ key ids, p.find? key = some ids → ¬ keys.Leads bound key → ids = []

theorem exact_build (keys : KeySet) (bound : Nat) (records : List Gram) :
    (build keys bound records).Exact keys bound records := by
  have hids {key : Gram} {ids : List RecordId}
      (h : (build keys bound records).find? key = some ids) :
      ids = found keys (min keys.longest bound) 0 records key := by
    by_cases hkey : key ∈ keys
    · rw [find?_build_of_mem hkey] at h
      exact (Option.some.inj h).symm
    · rw [find?_build_of_not_mem hkey] at h
      cases h
  constructor
  · rw [entries_build, List.map_map]
    exact List.map_id _
  · intro key
    by_cases hkey : key ∈ keys
    · simp [find?_build_of_mem hkey, hkey]
    · simp [find?_build_of_not_mem hkey, hkey]
  · intro key ids h
    rw [hids h]
    exact found_sorted
  · intro key ids h hleads id
    rw [hids h, mem_found, KeySet.leads_min_longest]
    simp only [hleads, true_and]
  · intro key ids h hleads
    apply List.eq_nil_iff_forall_not_mem.2
    intro id hid
    rw [hids h, mem_found, KeySet.leads_min_longest] at hid
    obtain ⟨record, _, hkey⟩ := hid
    exact hleads hkey.1

/--
Both ways to build posting lists give the same lists, for any keys: also for the empty one, for keys
that start with others and for keys that are longer than the bound, none of which a scan can find.
-/
theorem builds_exact (keys : KeySet) (bound : Nat) (records : List Gram) (pool : Pool) :
    (build keys bound records).Exact keys bound records ∧
      (buildParallel keys bound records pool).Exact keys bound records ∧
      buildParallel keys bound records pool = build keys bound records := by
  have hbuild := exact_build keys bound records
  have heq := buildParallel_eq keys bound records pool
  refine ⟨hbuild, ?_, heq⟩
  rw [heq]
  exact hbuild

example : (build ⟨[[], [97], [97, 98], [98, 99, 100]], by decide⟩ 2 [[97, 98, 99, 100]]).entries =
    [([], []), ([97], [0]), ([97, 98], []), ([98, 99, 100], [])] := by decide

end Postings

end GramIndex
