import GramIndex.Proofs.Evaluation

/-!
This module contains the removal of null nodes as a normal form of plans: it is reached in one step,
it is no larger, and it says the same about texts and records.
-/

namespace GramIndex.Plan

theorem size_propagateNulls_le {α : Type} (p : Plan α) : p.propagateNulls.size ≤ p.size := by
  induction p with
  | and l r ihl ihr =>
    rw [propagateNulls_and]
    split
    · simp only [size]
      omega
    · split
      · simp only [size]
        omega
      · simp only [size]
        omega
  | or l r ihl ihr =>
    rw [propagateNulls_or]
    split
    · simp only [size]
      omega
    · simp only [size]
      omega
  | literal a => apply Nat.le_refl
  | null => apply Nat.le_refl

theorem evaluate_propagateNulls {data : Dataset} {index : Index} (h : index.Scans data)
    (plan : Plan Gram) : plan.propagateNulls.evaluate index = plan.evaluate index := by
  have hsorted : ∀ key, (index.postingList key).Pairwise (· < ·) := fun _ => h.postingList_sorted
  have hanswers := answers_evaluate hsorted plan.propagateNulls
  simp only [silent_propagateNulls, holds_propagateNulls] at hanswers
  apply hanswers.unique
  apply answers_evaluate hsorted

/--
Removing null nodes gives null or a plan without null nodes, and nothing is left to remove from it.
It keeps what the plan says about every text and what every index over a dataset makes of it, which
is nothing exactly for null. The literals that are left stand in their order, and the plan does not
grow.
-/
theorem propagateNulls_normalizes (plan : Plan Gram) :
    (plan.propagateNulls = .null ∨ plan.propagateNulls.NullFree) ∧
    plan.propagateNulls.propagateNulls = plan.propagateNulls ∧
    (∀ bytes, plan.propagateNulls.Satisfies bytes ↔ plan.Satisfies bytes) ∧
    (∀ data index, Index.BuiltOver data index →
      plan.propagateNulls.evaluate index = plan.evaluate index ∧
      (plan.evaluate index = none ↔ plan.propagateNulls = .null)) ∧
    plan.propagateNulls.literals.Sublist plan.literals ∧
    plan.propagateNulls.size ≤ plan.size := by
  refine ⟨?_, ?_, ?_, ?_, ?_, ?_⟩
  · apply propagateNulls_eq_null_or_nullFree
  · apply propagateNulls_propagateNulls
  · intro bytes
    apply holds_propagateNulls
  · intro data index h
    constructor
    · apply evaluate_propagateNulls h.scans
    · apply evaluate_eq_none_iff h.scans
  · apply literals_propagateNulls_sublist
  · apply size_propagateNulls_le

theorem propagateNulls_normalizes_nested :
    let plan : Plan Gram := .and (.or (.literal [97]) .null) (.and (.literal [98]) .null)
    plan.propagateNulls = .literal [98] ∧
    ∃ index, Index.fromKeys (Dataset.ofList ["a", "b"]) ⟨[[97], [98]], by decide⟩ 1 = .ok index ∧
      plan.propagateNulls.evaluate index = plan.evaluate index ∧
      plan.evaluate index = some [1] := by
  intro plan
  refine ⟨rfl, _, rfl, ?_, by decide +kernel⟩
  exact ((propagateNulls_normalizes plan).2.2.2.1 (Dataset.ofList ["a", "b"]) _
    (.given ⟨[[97], [98]], by decide⟩ 1 rfl)).1

end GramIndex.Plan
