import GramIndex.Plan.Evaluate
import GramIndex.Proofs.IdLists
import GramIndex.Proofs.Indexes
import GramIndex.Proofs.Plans

/-!
This module contains the exact meaning of a plan under an index: replacing its literals by keys and
evaluating the keys gives the records that contain every key in the literals, and loses none of the
records that satisfy the plan itself.
-/

namespace GramIndex.Plan

variable {ids : Option (List RecordId)} {silent : Prop} {P : RecordId → Prop}

/--
What ids say about the records: nothing, or which of them satisfy `P`.
-/
structure Answers (ids : Option (List RecordId)) (silent : Prop) (P : RecordId → Prop) : Prop where
  eq_none_iff : ids = none ↔ silent
  sorted : ∀ list, ids = some list → list.Pairwise (· < ·)
  mem_iff : ∀ list, ids = some list → ∀ id, id ∈ list ↔ P id

theorem Answers.unique {other : Option (List RecordId)} (h : Answers ids silent P)
    (hother : Answers other silent P) : ids = other := by
  cases ids with
  | none =>
    symm
    rw [hother.eq_none_iff, ← h.eq_none_iff]
  | some list =>
    cases other with
    | none => rw [h.eq_none_iff, ← hother.eq_none_iff]
    | some others =>
      have hlist : IdList.Enumerates list P := ⟨h.sorted list rfl, h.mem_iff list rfl⟩
      have hothers : IdList.Enumerates others P :=
        ⟨hother.sorted others rfl, hother.mem_iff others rfl⟩
      rw [hlist.unique hothers]

namespace Outcome

/--
The ids of an outcome and both of its lists of operands say the same about the records.
-/
structure Denotes (o : Outcome) (silent : Prop) (P : RecordId → Prop) : Prop where
  ids : Answers o.ids silent P
  conjuncts_eq_nil : o.conjuncts = [] ↔ silent
  conjuncts_sorted : ∀ list ∈ o.conjuncts, list.Pairwise (· < ·)
  mem_conjuncts : ∀ id, (∀ list ∈ o.conjuncts, id ∈ list) ↔ P id
  disjuncts_eq_none : o.disjuncts = none ↔ silent
  disjuncts_sorted : ∀ lists, o.disjuncts = some lists → ∀ list ∈ lists, list.Pairwise (· < ·)
  mem_disjuncts : ∀ lists, o.disjuncts = some lists → ∀ id, (∃ list ∈ lists, id ∈ list) ↔ P id

theorem Denotes.congr {o : Outcome} {silent' : Prop} {P' : RecordId → Prop}
    (h : o.Denotes silent P) (hsilent : silent ↔ silent') (hP : ∀ id, P id ↔ P' id) :
    o.Denotes silent' P' := by
  have heq : P = P' := funext fun id => propext (hP id)
  rw [← heq, ← propext hsilent]
  exact h

theorem denotes_single (h : Answers ids silent P) (hsilent : silent → ∀ id, P id) :
    (single ids).Denotes silent P := by
  cases ids with
  | none =>
    have hs := h.eq_none_iff.1 rfl
    constructor
    · exact h
    all_goals simp [single, hs, hsilent hs]
  | some list =>
    have hs : ¬ silent := by
      intro hs
      have := h.eq_none_iff.2 hs
      simp at this
    constructor
    · exact h
    all_goals simp [single, hs, h.sorted list rfl, h.mem_iff list rfl]

theorem answers_ofConjuncts {lists : List (List RecordId)}
    (h : ∀ list ∈ lists, list.Pairwise (· < ·)) :
    Answers (ofConjuncts lists).ids (lists = []) fun id => ∀ list ∈ lists, id ∈ list := by
  match lists with
  | [] => constructor <;> simp [ofConjuncts]
  | [list] => constructor <;> simp [ofConjuncts, h]
  | first :: second :: lists =>
    have hsorted : ∀ list ∈ first :: second :: lists, list.Pairwise (· ≤ ·) := by
      intro list hlist
      exact IdList.le_of_sorted (h list hlist)
    have hspec := IdList.enumerates_intersectAll hsorted (by simp)
    constructor
    · simp [ofConjuncts]
    · intro list hlist
      rw [← Option.some.inj hlist]
      exact hspec.1
    · intro list hlist
      rw [← Option.some.inj hlist]
      exact hspec.2

theorem denotes_ofConjuncts {lists : List (List RecordId)}
    (h : ∀ list ∈ lists, list.Pairwise (· < ·)) :
    (ofConjuncts lists).Denotes (lists = []) fun id => ∀ list ∈ lists, id ∈ list := by
  have hids := answers_ofConjuncts h
  have hnil : lists = [] → ∀ id : RecordId, ∀ list ∈ lists, id ∈ list := by
    intro hnil
    simp [hnil]
  -- By itself and in a disjunction, the chain is the list of its common ids.
  have hsingle := denotes_single hids hnil
  exact {
    ids := hids
    conjuncts_eq_nil := Iff.rfl
    conjuncts_sorted := h
    mem_conjuncts := fun _ => Iff.rfl
    disjuncts_eq_none := hsingle.disjuncts_eq_none
    disjuncts_sorted := hsingle.disjuncts_sorted
    mem_disjuncts := hsingle.mem_disjuncts
  }

theorem answers_ofDisjuncts {lists : Option (List (List RecordId))}
    (h : ∀ operands ∈ lists, ∀ list ∈ operands, list.Pairwise (· < ·)) :
    Answers (ofDisjuncts lists).ids (lists = none) fun id =>
      ∀ operands ∈ lists, ∃ list ∈ operands, id ∈ list := by
  cases lists with
  | none => constructor <;> simp [ofDisjuncts]
  | some lists =>
    have hsorted : ∀ list ∈ lists, list.Pairwise (· ≤ ·) := by
      intro list hlist
      exact IdList.le_of_sorted (h lists rfl list hlist)
    have hspec := IdList.enumerates_unionAll hsorted
    constructor
    · simp [ofDisjuncts]
    · intro list hlist
      rw [← Option.some.inj hlist]
      exact hspec.1
    · intro list hlist
      rw [← Option.some.inj hlist]
      simpa using hspec.2

theorem denotes_ofDisjuncts {lists : Option (List (List RecordId))}
    (h : ∀ operands ∈ lists, ∀ list ∈ operands, list.Pairwise (· < ·)) :
    (ofDisjuncts lists).Denotes (lists = none) fun id =>
      ∀ operands ∈ lists, ∃ list ∈ operands, id ∈ list := by
  have hids := answers_ofDisjuncts h
  have hnone : lists = none →
      ∀ id : RecordId, ∀ operands ∈ lists, ∃ list ∈ operands, id ∈ list := by
    intro hnone
    simp [hnone]
  -- By itself and in a conjunction, the chain is the list of all its ids.
  have hsingle := denotes_single hids hnone
  exact {
    ids := hids
    conjuncts_eq_nil := hsingle.conjuncts_eq_nil
    conjuncts_sorted := hsingle.conjuncts_sorted
    mem_conjuncts := hsingle.mem_conjuncts
    disjuncts_eq_none := Iff.rfl
    disjuncts_sorted := h
    mem_disjuncts := by
      intro operands hoperands id
      cases hoperands
      simp
  }

theorem denotes_none : (ofDisjuncts none).Denotes True fun _ => True := by
  have hsorted : ∀ operands ∈ (none : Option (List (List RecordId))),
      ∀ list ∈ operands, list.Pairwise (· < ·) := by simp
  apply (denotes_ofDisjuncts hsorted).congr
  · simp
  · simp

end Outcome

theorem denotes_outcome {index : Index}
    (h : ∀ key, (index.postingList key).Pairwise (· < ·)) (plan : Plan Gram) :
    (plan.outcome index).Denotes (plan.Silent fun _ => False) fun id =>
      plan.Holds (id ∈ index.postingList ·) := by
  induction plan with
  | and l r ihl ihr =>
    have hsorted : ∀ list ∈ (l.outcome index).conjuncts ++ (r.outcome index).conjuncts,
        list.Pairwise (· < ·) := by
      intro list hlist
      cases List.mem_append.1 hlist with
      | inl hlist => exact ihl.conjuncts_sorted list hlist
      | inr hlist => exact ihr.conjuncts_sorted list hlist
    rw [outcome]
    apply (Outcome.denotes_ofConjuncts hsorted).congr
    · rw [List.append_eq_nil_iff, ihl.conjuncts_eq_nil, ihr.conjuncts_eq_nil, Silent]
    · intro id
      rw [List.forall_mem_append, ihl.mem_conjuncts, ihr.mem_conjuncts, Holds]
  | or l r ihl ihr =>
    rw [outcome]
    cases hl : (l.outcome index).disjuncts with
    | none =>
      -- A side that says nothing makes the chain say nothing.
      have hs : l.Silent fun _ => False := ihl.disjuncts_eq_none.1 hl
      apply Outcome.denotes_none.congr
      · simp [Silent, hs]
      · intro id
        simp [Holds, hs.holds (P := (id ∈ index.postingList ·)) fun _ => False.elim]
    | some left =>
      have hsl : ¬ l.Silent fun _ => False := by
        rw [← ihl.disjuncts_eq_none, hl]
        simp
      cases hr : (r.outcome index).disjuncts with
      | none =>
        have hs : r.Silent fun _ => False := ihr.disjuncts_eq_none.1 hr
        apply Outcome.denotes_none.congr
        · simp [Silent, hs]
        · intro id
          simp [Holds, hs.holds (P := (id ∈ index.postingList ·)) fun _ => False.elim]
      | some right =>
        have hsr : ¬ r.Silent fun _ => False := by
          rw [← ihr.disjuncts_eq_none, hr]
          simp
        have hsorted : ∀ operands ∈ some (left ++ right), ∀ list ∈ operands,
            list.Pairwise (· < ·) := by
          intro operands hoperands list hlist
          cases hoperands
          cases List.mem_append.1 hlist with
          | inl hlist => exact ihl.disjuncts_sorted left hl list hlist
          | inr hlist => exact ihr.disjuncts_sorted right hr list hlist
        apply (Outcome.denotes_ofDisjuncts hsorted).congr
        · simp [Silent, hsl, hsr]
        · intro id
          rw [Holds, ← ihl.mem_disjuncts left hl, ← ihr.mem_disjuncts right hr]
          simp [or_and_right, exists_or]
  | literal key =>
    apply Outcome.denotes_single
    · constructor
      · simp [Silent]
      · intro list hlist
        rw [← Option.some.inj hlist]
        exact h key
      · intro list hlist id
        rw [← Option.some.inj hlist]
        rfl
    · intro hs
      cases hs
  | null =>
    apply Outcome.denotes_single
    · constructor <;> simp [Silent]
    · intro _ id
      trivial

theorem answers_evaluate {index : Index}
    (h : ∀ key, (index.postingList key).Pairwise (· < ·)) (plan : Plan Gram) :
    Answers (plan.evaluate index) (plan.Silent fun _ => False) fun id =>
      plan.Holds (id ∈ index.postingList ·) :=
  (denotes_outcome h plan).ids

section Bound

variable {data : Dataset} {index : Index} {plan : Plan Gram}

theorem literals_cover (text : Gram) : (cover index text).literals = index.coveringKeys text := by
  rw [cover, literals_all, List.flatMap_map]
  simp only [literals_literal]
  apply List.flatMap_singleton'

theorem literals_withKeys_sublist (plan : Plan Gram) :
    (plan.withKeys index).literals.Sublist (plan.literals.flatMap index.coveringKeys) := by
  have := literals_propagateNulls_sublist (plan.expand (cover index))
  simp only [literals_expand, literals_cover] at this
  exact this

theorem mem_keys_of_mem_literals_withKeys (h : index.Scans data) {key : Gram}
    (hkey : key ∈ (plan.withKeys index).literals) : key ∈ index.keys := by
  have hcovering := (literals_withKeys_sublist plan).subset hkey
  rw [List.mem_flatMap] at hcovering
  obtain ⟨text, _, hmem⟩ := hcovering
  exact (h.mem_coveringKeys.1 hmem).1

theorem holds_withKeys (h : index.Scans data) {P : Gram → Prop} :
    (plan.withKeys index).Holds P ↔
      plan.Holds fun text => ∀ key ∈ index.keys, key <:+: text → P key := by
  rw [withKeys, holds_propagateNulls, holds_expand]
  apply holds_congr
  intro text
  rw [cover, holds_all]
  simp only [List.forall_mem_map, Holds, h.mem_coveringKeys, and_imp]

theorem withKeys_eq_null_iff (h : index.Scans data) :
    plan.withKeys index = .null ↔
      plan.Silent fun text => ∀ key ∈ index.keys, ¬ key <:+: text := by
  rw [withKeys, propagateNulls_eq_null_iff, silent_expand]
  apply silent_congr
  intro text
  rw [cover, silent_all]
  simp only [List.forall_mem_map, Silent, h.mem_coveringKeys, imp_false, not_and]

theorem evaluate_eq_none_iff (h : index.Scans data) (plan : Plan Gram) :
    plan.evaluate index = none ↔ plan.propagateNulls = .null := by
  rw [(answers_evaluate (fun _ => h.postingList_sorted) plan).eq_none_iff,
    propagateNulls_eq_null_iff]

theorem evaluate_withKeys_eq_none_iff (h : index.Scans data) :
    (plan.withKeys index).evaluate index = none ↔ plan.withKeys index = .null := by
  rw [evaluate_eq_none_iff h, withKeys, propagateNulls_propagateNulls]

theorem nullFree_withKeys_of_evaluate (h : index.Scans data) {ids : List RecordId}
    (hids : (plan.withKeys index).evaluate index = some ids) :
    (plan.withKeys index).NullFree := by
  have hcases := propagateNulls_eq_null_or_nullFree (plan.expand (cover index))
  apply hcases.resolve_left
  intro hnull
  have := (evaluate_withKeys_eq_none_iff h).2 hnull
  rw [hids] at this
  simp at this

theorem mem_evaluate_withKeys_iff (h : index.Scans data) {ids : List RecordId}
    (hids : (plan.withKeys index).evaluate index = some ids) {id : RecordId} :
    id ∈ ids ↔ (plan.withKeys index).Holds (id ∈ index.postingList ·) := by
  have hanswers := answers_evaluate (fun _ => h.postingList_sorted) (plan.withKeys index)
  exact hanswers.mem_iff ids hids id

theorem lt_size_of_mem_evaluate (h : index.Scans data) {ids : List RecordId}
    (hids : (plan.withKeys index).evaluate index = some ids) {id : RecordId} (hid : id ∈ ids) :
    id < data.size := by
  rw [mem_evaluate_withKeys_iff h hids] at hid
  -- Without null nodes, some key of the plan has the record in its posting list.
  obtain ⟨key, _, hkey⟩ := (nullFree_withKeys_of_evaluate h hids).exists_of_holds hid
  obtain ⟨_, record, hrecord, _⟩ := h.mem_postingList.1 hkey
  obtain ⟨hlt, _⟩ := List.getElem?_eq_some_iff.1 hrecord
  rw [← data.length_records]
  exact hlt

theorem mem_evaluate_withKeys (h : index.Scans data) {ids : List RecordId}
    (hids : (plan.withKeys index).evaluate index = some ids) {id : RecordId} {record : Gram}
    (hrecord : data.records[id]? = some record) :
    id ∈ ids ↔
      plan.Holds fun text => ∀ key ∈ index.keys, key <:+: text → key <:+: record := by
  rw [mem_evaluate_withKeys_iff h hids, holds_withKeys h]
  apply holds_congr
  intro text
  simp only [h.mem_postingList, hrecord, Option.some.injEq, exists_eq_left']
  constructor
  · intro hmem key hkey htext
    exact (hmem key hkey htext).2
  · intro hmem key hkey htext
    exact ⟨hkey, hmem key hkey htext⟩

theorem Satisfies.mem_evaluate (h : index.Scans data) {ids : List RecordId}
    (hids : (plan.withKeys index).evaluate index = some ids) {id : RecordId} {record : Gram}
    (hrecord : data.records[id]? = some record) (hplan : plan.Satisfies record) : id ∈ ids := by
  rw [mem_evaluate_withKeys h hids hrecord]
  apply Holds.mono hplan
  intro text htext key _ hkey
  exact hkey.trans htext

/--
For every index over a dataset and every plan: the plan of keys is null or free of null nodes, has
keys as its literals, and gives no candidates exactly if it is null, which is exactly if literals
without keys leave the plan unconstrained. Otherwise the candidates are, in ascending order, the
records that satisfy the plan with each literal read as the keys in it, and with them all that
satisfy the plan.
-/
theorem evaluate_withKeys_exact (h : index.BuiltOver data) (plan : Plan Gram) :
    (plan.withKeys index = .null ∨ (plan.withKeys index).NullFree) ∧
    (∀ key ∈ (plan.withKeys index).literals, key ∈ index.keys) ∧
    ((plan.withKeys index).evaluate index = none ↔ plan.withKeys index = .null) ∧
    (plan.withKeys index = .null ↔
      plan.Silent fun text => ∀ key ∈ index.keys, ¬ key <:+: text) ∧
    ∀ ids, (plan.withKeys index).evaluate index = some ids →
      ids.Pairwise (· < ·) ∧ (∀ id ∈ ids, id < index.recordCount) ∧
      ∀ id record, data.records[id]? = some record →
        (id ∈ ids ↔
          plan.Holds fun text => ∀ key ∈ index.keys, key <:+: text → key <:+: record) ∧
        (plan.Satisfies record → id ∈ ids) := by
  have hscans := h.scans
  refine ⟨propagateNulls_eq_null_or_nullFree _, fun _ => mem_keys_of_mem_literals_withKeys hscans,
    evaluate_withKeys_eq_none_iff hscans, withKeys_eq_null_iff hscans, ?_⟩
  intro ids hids
  refine ⟨?_, ?_, ?_⟩
  · have hanswers := answers_evaluate (fun _ => hscans.postingList_sorted) (plan.withKeys index)
    exact hanswers.sorted ids hids
  · intro id hid
    rw [hscans.recordCount_eq]
    exact lt_size_of_mem_evaluate hscans hids hid
  · intro id record hrecord
    exact ⟨mem_evaluate_withKeys hscans hids hrecord, Satisfies.mem_evaluate hscans hids hrecord⟩

theorem evaluate_withKeys_exact_given :
    ∃ index, Index.fromKeys (Dataset.ofList ["ab", "b"]) ⟨[[97]], by decide⟩ 1 = .ok index ∧
      ((Plan.literal [97, 98]).withKeys index).evaluate index = some [0] ∧
      ∀ id record, (Dataset.ofList ["ab", "b"]).records[id]? = some record →
        (id ∈ [0] ↔ (Plan.literal [97, 98]).Holds fun text =>
          ∀ key ∈ index.keys, key <:+: text → key <:+: record) ∧
        ((Plan.literal [97, 98]).Satisfies record → id ∈ [0]) := by
  refine ⟨_, rfl, rfl, ?_⟩
  exact ((evaluate_withKeys_exact (.given ⟨[[97]], by decide⟩ 1 rfl) _).2.2.2.2 [0] rfl).2.2

end Bound

end GramIndex.Plan
