import GramIndex.Proofs.Evaluation
import GramIndex.Query

/-!
This module compares the candidates that two indexes over one dataset give for the same plan. More
keys leave fewer candidates. Dropping the keys that end with other keys leaves more of them, but an
index that helps still helps.
-/

namespace GramIndex

namespace Plan

variable {data : Dataset} {index other : Index} {plan : Plan Gram}

/--
Which plans an index is no help for depends only on the texts that have none of its keys in them.
-/
theorem evaluate_eq_none_of_uncovered (h : index.Scans data) (hother : other.Scans data)
    (huncovered : ∀ text, (∀ key ∈ other.keys, ¬ key <:+: text) →
      ∀ key ∈ index.keys, ¬ key <:+: text)
    (hnone : (plan.withKeys other).evaluate other = none) :
    (plan.withKeys index).evaluate index = none := by
  rw [evaluate_withKeys_eq_none_iff hother, withKeys_eq_null_iff hother] at hnone
  rw [evaluate_withKeys_eq_none_iff h, withKeys_eq_null_iff h]
  exact hnone.mono huncovered

theorem mem_evaluate_of_subset (h : index.Scans data) (hother : other.Scans data)
    (hkeys : ∀ key ∈ index.keys, key ∈ other.keys) {ids fewer : List RecordId}
    (hids : (plan.withKeys index).evaluate index = some ids)
    (hfewer : (plan.withKeys other).evaluate other = some fewer) {id : RecordId}
    (hid : id ∈ fewer) : id ∈ ids := by
  have hlt := lt_size_of_mem_evaluate hother hfewer hid
  rw [← data.length_records] at hlt
  have hrecord := List.getElem?_eq_getElem hlt
  rw [mem_evaluate_withKeys hother hfewer hrecord] at hid
  rw [mem_evaluate_withKeys h hids hrecord]
  exact hid.mono fun _ hcontains key hkey => hcontains key (hkeys key hkey)

/--
Where an index helps, one over the same dataset with all of its keys and more helps too, and leaves
no other candidates.
-/
theorem evaluate_sharpens {keys more : KeySet} {upperK moreK : UInt64}
    (hindex : Index.fromKeys data keys upperK = .ok index)
    (hother : Index.fromKeys data more moreK = .ok other)
    (hkeys : ∀ key ∈ keys, key ∈ more) (plan : Plan Gram) {ids : List RecordId}
    (hids : (plan.withKeys index).evaluate index = some ids) :
    ∃ fewer, (plan.withKeys other).evaluate other = some fewer ∧ ∀ id ∈ fewer, id ∈ ids := by
  have hscans := Index.scans_of_fromKeys hindex
  have hscansOther := Index.scans_of_fromKeys hother
  have hsubset : ∀ key ∈ index.keys, key ∈ other.keys := by
    obtain ⟨_, _, rfl⟩ := Index.exists_of_fromKeys hindex
    obtain ⟨_, _, rfl⟩ := Index.exists_of_fromKeys hother
    exact hkeys
  cases hfewer : (plan.withKeys other).evaluate other with
  | none =>
    have hnone := evaluate_eq_none_of_uncovered hscans hscansOther
      (fun _ huncovered key hkey => huncovered key (hsubset key hkey)) hfewer
    rw [hids] at hnone
    cases hnone
  | some fewer =>
    exact ⟨fewer, rfl, fun _ => mem_evaluate_of_subset hscans hscansOther hsubset hids hfewer⟩

theorem evaluate_sharpens_or :
    let data := Dataset.ofList ["ab", "xb", "cd", "a"]
    let plan : Plan Gram := .and (.literal [97, 98]) (.or (.literal [120]) (.literal [97]))
    ∃ index other, Index.fromKeys data ⟨[[97]], by decide⟩ 1 = .ok index ∧
      Index.fromKeys data ⟨[[97], [98], [120]], by decide⟩ 2 = .ok other ∧
      (plan.withKeys index).evaluate index = some [0, 3] ∧
      ∃ fewer, (plan.withKeys other).evaluate other = some fewer ∧ ∀ id ∈ fewer, id ∈ [0, 3] := by
  intro data plan
  refine ⟨_, _, rfl, rfl, by decide, ?_⟩
  exact @evaluate_sharpens data _ _ ⟨[[97]], by decide⟩ ⟨[[97], [98], [120]], by decide⟩ 1 2 rfl rfl
    (by decide) plan [0, 3] (by decide)

end Plan

namespace Selector

/--
Whether keys that end with other keys are dropped plays no part before all keys are selected.
-/
theorem grow_suffixFree (s : Selector) (drop : Bool) (step : Nat → List Gram → Split) (k : Nat)
    (keys : KeySet) (expand : List Gram) :
    ({ s with suffixFree := drop }).grow step k keys expand = s.grow step k keys expand := by
  fun_induction s.grow step k keys expand with
  | case1 k keys expand hmore sorted ih =>
    rw [grow]
    exact (if_pos hmore).trans ih
  | case2 k keys expand hdone =>
    rw [grow]
    exact if_neg hdone

theorem select_suffixFree (s : Selector) (records : List Gram) :
    ({ s with suffixFree := true }).select records =
      (({ s with suffixFree := false }).select records).suffixFree := by
  unfold select
  rw [grow_suffixFree s true, grow_suffixFree s false]
  rfl

end Selector

namespace Index

variable {data : Dataset} {c : Config}

theorem keys_build_suffixFree {plain refined : Index}
    (hplain : build data { c with suffixFree := false } = .ok plain)
    (hrefined : build data { c with suffixFree := true } = .ok refined) :
    refined.keys = plain.keys.suffixFree := by
  obtain ⟨_, _, hs, _, rfl⟩ := exists_of_build hplain
  obtain ⟨_, _, hsRefined, _, rfl⟩ := exists_of_build hrefined
  rw [eq_of_ofConfig hs, eq_of_ofConfig hsRefined]
  exact Selector.select_suffixFree ⟨c.threshold, c.upperK.toNat, false, _⟩ data.records

/--
Dropping the keys that end with other keys costs no help: the index is built as before, it helps for
the same patterns, and it loses none of their candidates.
-/
theorem candidates_suffixFree (data : Dataset) (c : Config) (h : c.validate = .ok ()) :
    (data.size ≤ Dataset.maxSize → ∃ plain refined,
      build data { c with suffixFree := false } = .ok plain ∧
      build data { c with suffixFree := true } = .ok refined) ∧
    ∀ plain refined, build data { c with suffixFree := false } = .ok plain →
      build data { c with suffixFree := true } = .ok refined → ∀ pattern,
        ((Query.compile pattern).candidates refined = none ↔
          (Query.compile pattern).candidates plain = none) ∧
        ∀ ids more, (Query.compile pattern).candidates plain = some ids →
          (Query.compile pattern).candidates refined = some more → ∀ id ∈ ids, id ∈ more := by
  constructor
  · intro hsize
    obtain ⟨plain, hplain⟩ := exists_build (c := { c with suffixFree := false }) h hsize
    obtain ⟨refined, hrefined⟩ := exists_build (c := { c with suffixFree := true }) h hsize
    exact ⟨plain, refined, hplain, hrefined⟩
  · intro plain refined hplain hrefined pattern
    have hkeys := keys_build_suffixFree hplain hrefined
    have hsubset : ∀ key ∈ refined.keys, key ∈ plain.keys := by
      rw [hkeys]
      exact fun _ => KeySet.mem_of_mem_suffixFree
    have hplain := scans_of_build hplain
    have hrefined := scans_of_build hrefined
    refine ⟨⟨?_, ?_⟩, ?_⟩
    · -- A text with a dropped key in it has the kept key at its end in it as well.
      apply Plan.evaluate_eq_none_of_uncovered hplain hrefined
      intro text huncovered key hkey htext
      obtain ⟨kept, hkept, hsuffix⟩ := KeySet.exists_suffix_of_mem hkey
      rw [← hkeys] at hkept
      exact huncovered kept hkept (hsuffix.isInfix.trans htext)
    · apply Plan.evaluate_eq_none_of_uncovered hrefined hplain
      intro text huncovered key hkey
      exact huncovered key (hsubset key hkey)
    · intro ids more hids hmore id
      exact Plan.mem_evaluate_of_subset hrefined hplain hsubset hmore hids

theorem candidates_suffixFree_quarter :
    Config.validate { threshold := 0.25, upperK := 2, threads := 2 } = .ok () ∧
    ∃ plain refined,
      build (Dataset.ofList ["ab", "ac", "ad", "a"])
        { threshold := 0.25, upperK := 2, threads := 2, suffixFree := false } = .ok plain ∧
      build (Dataset.ofList ["ab", "ac", "ad", "a"])
        { threshold := 0.25, upperK := 2, threads := 2, suffixFree := true } = .ok refined ∧
      (∀ pattern,
        ((Query.compile pattern).candidates refined = none ↔
          (Query.compile pattern).candidates plain = none) ∧
        ∀ ids more, (Query.compile pattern).candidates plain = some ids →
          (Query.compile pattern).candidates refined = some more → ∀ id ∈ ids, id ∈ more) ∧
      plain.keys.toList = ["ab", "ac", "ad", "b", "c", "d"].map textBytes ∧
      refined.keys.toList = ["b", "c", "d"].map textBytes ∧
      (Query.compile "[ad](d)").candidates plain = some [2] ∧
      (Query.compile "[ad](d)").candidates refined = some [2] := by
  obtain ⟨hbuilds, hcandidates⟩ := candidates_suffixFree (Dataset.ofList ["ab", "ac", "ad", "a"])
    { threshold := 0.25, upperK := 2, threads := 2 } rfl
  obtain ⟨plain, refined, hplain, hrefined⟩ := hbuilds (by decide)
  have hkeys : plain.keys =
      ⟨["ab", "ac", "ad", "b", "c", "d"].map textBytes, by decide +kernel⟩ := by
    apply Selector.eq_of_mem_iff
    · intro g
      exact mem_keys_of_build hplain (Selector.ofConfig_of_validate rfl) rfl
    · decide +kernel
  have hkept : refined.keys = ⟨["b", "c", "d"].map textBytes, by decide +kernel⟩ := by
    apply KeySet.ext
    intro g
    rw [keys_build_suffixFree hplain hrefined, KeySet.mem_suffixFree, hkeys, ← KeySet.mem_toList,
      ← KeySet.mem_toList]
    constructor
    · rintro ⟨hmem, hends⟩
      revert g
      decide +kernel
    · revert g
      decide +kernel
  have hroot : (Query.compile "[ad](d)").root = .literal [100] := by decide +kernel
  refine ⟨rfl, plain, refined, hplain, hrefined, hcandidates plain refined hplain hrefined, ?_⟩
  rw [Query.candidates, Query.candidates, Query.prepare, Query.prepare, hroot, eq_of_build hplain,
    eq_of_build hrefined, hkeys, hkept]
  decide +kernel

end Index

end GramIndex
