import GramIndex.Proofs.Evaluation
import Mathlib.Data.Finset.Sort

/-!
This module contains the evaluation of plans one node at a time, by sets of records. Evaluation
takes a chain of nodes of one kind at once and merges ascending lists, and comes to the same
records.
-/

namespace GramIndex.Plan

inductive Junction where
  | and
  | or
  deriving DecidableEq, Repr

/--
The operands of the plans on a stack, from left to right, where a node of the given kind on top of
it gives way to its sides.
-/
def operands (junction : Junction) : List (Plan α) → List (Plan α)
  | [] => []
  | p :: stack =>
    match junction, p with
    | .and, .and l r => operands .and (l :: r :: stack)
    | .or, .or l r => operands .or (l :: r :: stack)
    | junction, p => p :: operands junction stack
termination_by stack => (stack.map size).sum
decreasing_by
  · simp only [List.map_cons, List.sum_cons, size]
    omega
  · simp only [List.map_cons, List.sum_cons, size]
    omega
  · have : 0 < p.size := by
      cases p <;> simp only [size] <;> omega
    simp only [List.map_cons, List.sum_cons]
    omega

variable {index : Index}

theorem operands_append {α : Type} {junction : Junction} (ps qs : List (Plan α)) :
    operands junction (ps ++ qs) = operands junction ps ++ operands junction qs := by
  fun_induction operands junction ps with
  | case1 => rfl
  | case2 stack l r ih | case3 stack l r ih =>
    rw [List.cons_append, operands]
    apply ih
  | case4 junction p stack hand hor ih =>
    rw [List.cons_append, operands, ih, List.cons_append]
    · exact hand
    · exact hor

theorem conjuncts_outcome (plan : Plan Gram) :
    (plan.outcome index).conjuncts = (operands .and [plan]).filterMap (evaluate index) := by
  induction plan with
  | and l r ihl ihr =>
    rw [operands, show [l, r] = [l] ++ [r] from rfl, operands_append, List.filterMap_append,
      ← ihl, ← ihr]
    rfl
  | or l r ihl ihr =>
    have hsingle : operands .and [Plan.or l r] = [.or l r] := by simp [operands]
    have hids : ((Plan.or l r).outcome index).conjuncts =
        ((Plan.or l r).evaluate index).toList := rfl
    rw [hsingle, hids]
    cases h : (Plan.or l r).evaluate index with
    | none => simp [h]
    | some ids => simp [h]
  | literal key => simp [operands, evaluate, outcome, Outcome.single]
  | null => simp [operands, evaluate, outcome, Outcome.single]

theorem disjuncts_outcome (plan : Plan Gram) :
    (plan.outcome index).disjuncts = (operands .or [plan]).mapM (evaluate index) := by
  induction plan with
  | and l r ihl ihr =>
    have hsingle : operands .or [Plan.and l r] = [.and l r] := by simp [operands]
    have hids : ((Plan.and l r).outcome index).disjuncts =
        ((Plan.and l r).evaluate index).map ([·]) := rfl
    rw [hsingle, hids]
    cases h : (Plan.and l r).evaluate index with
    | none => simp [h]
    | some ids => simp [h]
  | or l r ihl ihr =>
    rw [operands, show [l, r] = [l] ++ [r] from rfl, operands_append, List.mapM_append,
      ← ihl, ← ihr, outcome, Outcome.ofDisjuncts]
    cases (l.outcome index).disjuncts with
    | none => rfl
    | some left => cases (r.outcome index).disjuncts <;> rfl
  | literal key => simp [operands, evaluate, outcome, Outcome.single]
  | null => simp [operands, evaluate, outcome, Outcome.single]

theorem evaluate_and (l r : Plan Gram) :
    (Plan.and l r).evaluate index =
      match (operands .and [.and l r]).filterMap (evaluate index) with
      | [] => none
      | [list] => some list
      | lists => some (IdList.intersectAll lists) := by
  rw [← conjuncts_outcome]
  rfl

theorem evaluate_or (l r : Plan Gram) :
    (Plan.or l r).evaluate index =
      ((operands .or [.or l r]).mapM (evaluate index)).map IdList.unionAll := by
  rw [← disjuncts_outcome]
  rfl

/--
The records of a plan, from those of both sides at each node. `none` means that the plan does not
constrain the records.
-/
def recordSet (index : Index) : Plan Gram → Option (Finset RecordId)
  | .and l r =>
    match l.recordSet index, r.recordSet index with
    | none, right => right
    | left, none => left
    | some left, some right => some (left ∩ right)
  | .or l r =>
    match l.recordSet index, r.recordSet index with
    | some left, some right => some (left ∪ right)
    | _, _ => none
  | .literal key => some (index.postingList key).toFinset
  | .null => none

theorem recordSet_eq_none_iff (plan : Plan Gram) :
    plan.recordSet index = none ↔ plan.Silent fun _ => False := by
  induction plan with
  | and l r ihl ihr =>
    rw [Silent, ← ihl, ← ihr, recordSet]
    cases l.recordSet index with
    | none => simp
    | some left => cases r.recordSet index <;> simp
  | or l r ihl ihr =>
    rw [Silent, ← ihl, ← ihr, recordSet]
    cases l.recordSet index with
    | none => simp
    | some left => cases r.recordSet index <;> simp
  | literal key => simp [recordSet, Silent]
  | null => simp [recordSet, Silent]

theorem holds_of_recordSet_eq_none {plan : Plan Gram} {P : Gram → Prop}
    (h : plan.recordSet index = none) : plan.Holds P := by
  apply ((recordSet_eq_none_iff plan).1 h).holds
  intro _ hfalse
  exact hfalse.elim

theorem mem_recordSet {plan : Plan Gram} {records : Finset RecordId} {id : RecordId}
    (h : plan.recordSet index = some records) :
    id ∈ records ↔ plan.Holds (id ∈ index.postingList ·) := by
  induction plan generalizing records with
  | and l r ihl ihr =>
    rw [recordSet] at h
    rw [Holds]
    cases hl : l.recordSet index with
    | none =>
      rw [hl] at h
      rw [ihr h]
      simp [holds_of_recordSet_eq_none hl]
    | some left =>
      rw [hl] at h
      cases hr : r.recordSet index with
      | none =>
        rw [hr] at h
        cases h
        rw [ihl hl]
        simp [holds_of_recordSet_eq_none hr]
      | some right =>
        rw [hr] at h
        cases h
        rw [Finset.mem_inter, ihl hl, ihr hr]
  | or l r ihl ihr =>
    rw [recordSet] at h
    cases hl : l.recordSet index with
    | none => simp [hl] at h
    | some left =>
      cases hr : r.recordSet index with
      | none => simp [hl, hr] at h
      | some right =>
        rw [hl, hr] at h
        cases h
        rw [Finset.mem_union, ihl hl, ihr hr, Holds]
  | literal key =>
    cases h
    rw [List.mem_toFinset, Holds]
  | null => cases h

theorem answers_recordSet (plan : Plan Gram) :
    Answers ((plan.recordSet index).map Finset.sort) (plan.Silent fun _ => False) fun id =>
      plan.Holds (id ∈ index.postingList ·) := by
  constructor
  · rw [Option.map_eq_none_iff, recordSet_eq_none_iff]
  · intro list hlist
    obtain ⟨records, _, rfl⟩ := Option.map_eq_some_iff.1 hlist
    apply (Finset.sortedLT_sort records).pairwise
  · intro list hlist id
    obtain ⟨records, hrecords, rfl⟩ := Option.map_eq_some_iff.1 hlist
    rw [Finset.mem_sort, mem_recordSet hrecords]

/--
For every index over a dataset, a plan is evaluated to the records that the sets of its nodes have,
in ascending order and without repeats, and to nothing exactly if these leave the records
unconstrained.
-/
theorem evaluate_eq_recordSet {data : Dataset} (h : index.BuiltOver data) (plan : Plan Gram) :
    plan.evaluate index = (plan.recordSet index).map Finset.sort ∧
      ∀ ids, plan.evaluate index = some ids → ids.Pairwise (· < ·) := by
  have hanswers := answers_evaluate (fun _ => h.scans.postingList_sorted) plan
  constructor
  · apply hanswers.unique
    apply answers_recordSet
  · apply hanswers.sorted

theorem evaluate_eq_recordSet_chain :
    let plan : Plan Gram := .and (.literal [98])
      (.and (.or (.literal [97]) (.literal [99])) (.and (.literal [100]) .null))
    ∃ index, Index.fromKeys (Dataset.ofList ["ab", "bc", "cd", "abcd"])
        ⟨[[97], [98], [99], [100]], by decide⟩ 1 = .ok index ∧
      plan.recordSet index = some {3} ∧
      plan.evaluate index = (plan.recordSet index).map Finset.sort ∧
      ∀ ids, plan.evaluate index = some ids → ids.Pairwise (· < ·) := by
  intro plan
  refine ⟨_, rfl, by decide +kernel, ?_⟩
  exact @evaluate_eq_recordSet _ (Dataset.ofList ["ab", "bc", "cd", "abcd"])
    (.given ⟨[[97], [98], [99], [100]], by decide⟩ 1 rfl) plan

end GramIndex.Plan
