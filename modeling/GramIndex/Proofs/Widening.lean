import GramIndex.Proofs.Evaluation
import GramIndex.Query

/-!
This module compares what two compilers make of one pattern. The bytes that keep a span from being a
literal decide which leaves of a plan are literals and have no part in its shape, so a compiler with
more of them says less about texts, and an index that helps with what it says helps with the rest.
-/

namespace GramIndex

namespace Plan

variable {α β : Type} {p q : Plan α} {P : α → Prop}

/--
A plan is left of another one if any number of literals are replaced by null nodes.
-/
inductive Blanks : Plan α → Plan α → Prop where
  | and {l l' r r' : Plan α} (hl : Blanks l l') (hr : Blanks r r') : Blanks (.and l r) (.and l' r')
  | or {l l' r r' : Plan α} (hl : Blanks l l') (hr : Blanks r r') : Blanks (.or l r) (.or l' r')
  | kept (a : α) : Blanks (.literal a) (.literal a)
  | blanked (a : α) : Blanks (.literal a) .null
  | null : Blanks .null .null

theorem Blanks.holds (h : p.Blanks q) (hp : p.Holds P) : q.Holds P := by
  induction h with
  | and _ _ ihl ihr => exact ⟨ihl hp.1, ihr hp.2⟩
  | or _ _ ihl ihr => exact hp.imp ihl ihr
  | kept a => exact hp
  | blanked a => trivial
  | null => trivial

theorem blanks_expand {f g : α → Plan β} (h : ∀ a, (f a).Blanks (g a)) (p : Plan α) :
    (p.expand f).Blanks (p.expand g) := by
  induction p with
  | and l r ihl ihr => exact .and ihl ihr
  | or l r ihl ihr => exact .or ihl ihr
  | literal a => exact h a
  | null => exact .null

end Plan

namespace Compiler

variable {c wider : Compiler}

/--
Every byte that keeps a span from being a literal for one compiler does so for the other.
-/
structure Within (c wider : Compiler) : Prop where
  metachars : ∀ b ∈ c.metachars, b ∈ wider.metachars
  classEscapes : ∀ b ∈ c.classEscapes, b ∈ wider.classEscapes

theorem Within.isPlainLiteral (h : c.Within wider) {span : Gram}
    (hplain : wider.isPlainLiteral span = true) : c.isPlainLiteral span = true := by
  fun_induction wider.isPlainLiteral span with
  | case1 => rfl
  | case2 b =>
    simp only [Bool.and_eq_true, decide_eq_true_eq, Bool.not_eq_true', List.contains_eq_mem,
      decide_eq_false_iff_not] at hplain
    simp [Compiler.isPlainLiteral, hplain.1, mt (h.metachars b) hplain.2]
  | case3 next rest ih =>
    simp only [Bool.and_eq_true, Bool.not_eq_true', List.contains_eq_mem,
      decide_eq_false_iff_not] at hplain
    simp [Compiler.isPlainLiteral, mt (h.classEscapes next) hplain.1, ih hplain.2]
  | case4 b next rest hb ih =>
    simp only [Bool.and_eq_true, Bool.not_eq_true', List.contains_eq_mem,
      decide_eq_false_iff_not] at hplain
    simp [Compiler.isPlainLiteral, hb, mt (h.metachars b) hplain.1, ih hplain.2]

theorem Within.leaf (h : c.Within wider) (span : Gram) :
    (c.leaf span).Blanks (wider.leaf span) := by
  unfold Compiler.leaf
  cases hwider : wider.isPlainLiteral span with
  | true =>
    rw [h.isPlainLiteral hwider]
    exact .kept _
  | false =>
    split
    · exact .blanked _
    · exact .null

theorem Within.compile (h : c.Within wider) (pattern : String) :
    (c.compile pattern).Blanks (wider.compile pattern) := by
  unfold Compiler.compile compileBytes
  split
  · exact .null
  · exact Plan.blanks_expand h.leaf _

end Compiler

namespace Plan

variable {data : Dataset} {index : Index} {p q : Plan Gram}

/--
Where an index helps with a plan, it helps with one that says more, and leaves no other candidates.
-/
theorem exists_evaluate_of_holds (h : index.Scans data)
    (hweaker : ∀ P : Gram → Prop, p.Holds P → q.Holds P) {ids : List RecordId}
    (hids : (q.withKeys index).evaluate index = some ids) :
    ∃ fewer, (p.withKeys index).evaluate index = some fewer ∧ ∀ id ∈ fewer, id ∈ ids := by
  cases hfewer : (p.withKeys index).evaluate index with
  | none =>
    rw [evaluate_withKeys_eq_none_iff h, withKeys_eq_null_iff h, silent_iff_holds] at hfewer
    have hnone : (q.withKeys index).evaluate index = none := by
      rw [evaluate_withKeys_eq_none_iff h, withKeys_eq_null_iff h, silent_iff_holds]
      exact hweaker _ hfewer
    rw [hids] at hnone
    cases hnone
  | some fewer =>
    refine ⟨fewer, rfl, ?_⟩
    intro id hid
    rw [mem_evaluate_withKeys_iff h hfewer, holds_withKeys h] at hid
    rw [mem_evaluate_withKeys_iff h hids, holds_withKeys h]
    exact hweaker _ hid

end Plan

namespace Compiler

variable {c wider : Compiler}

/--
A compiler with more bytes that keep spans from being literals makes the same plan of a pattern but
for literals that are null nodes. So it asks no more of a text, and where an index helps with its
query, the index helps with that of the other compiler and leaves no other candidates.
-/
theorem weakens_of_within (h : c.Within wider) (pattern : String) :
    (c.compile pattern).Blanks (wider.compile pattern) ∧
    (∀ bytes, (c.compile pattern).Satisfies bytes → (wider.compile pattern).Satisfies bytes) ∧
    ∀ data index, Index.BuiltOver data index → ∀ ids,
      (Query.compileWith wider pattern).candidates index = some ids →
      ∃ fewer, (Query.compileWith c pattern).candidates index = some fewer ∧
        ∀ id ∈ fewer, id ∈ ids := by
  have hblanks := h.compile pattern
  refine ⟨hblanks, fun _ => hblanks.holds, ?_⟩
  intro data index hindex ids hids
  apply Plan.exists_evaluate_of_holds hindex.scans _ hids
  intro P hP
  exact Plan.holds_propagateNulls.2 (hblanks.holds (Plan.holds_propagateNulls.1 hP))

theorem weakens_of_within_star :
    Within ⟨[42], []⟩ default ∧
      (compile ⟨[42], []⟩ "a.b(c|d)").literals = [[97, 46, 98], [99], [100]] ∧
      (compile default "a.b(c|d)").literals = [[99], [100]] ∧
      ∃ index, Index.fromKeys (Dataset.ofList ["a.bc", "c", "d", "x"])
          ⟨[[97], [99], [100]], by decide⟩ 1 = .ok index ∧
        (Query.compileWith default "a.b(c|d)").candidates index = some [0, 1, 2] ∧
        ∃ fewer, (Query.compileWith ⟨[42], []⟩ "a.b(c|d)").candidates index = some fewer ∧
          ∀ id ∈ fewer, id ∈ [0, 1, 2] := by
  have hwithin : Within ⟨[42], []⟩ default := ⟨List.forall_mem_singleton.2 (by decide), by simp⟩
  have hids : (Query.compileWith default "a.b(c|d)").root =
      .or (.literal [99]) (.literal [100]) := by with_unfolding_all rfl
  refine ⟨hwithin, by with_unfolding_all rfl, by with_unfolding_all rfl, _, rfl, ?_, ?_⟩
  · rw [Query.candidates, Query.prepare, hids]
    with_unfolding_all rfl
  · apply (weakens_of_within hwithin "a.b(c|d)").2.2 (Dataset.ofList ["a.bc", "c", "d", "x"]) _
      (.given ⟨[[97], [99], [100]], by decide⟩ 1 rfl)
    rw [Query.candidates, Query.prepare, hids]
    with_unfolding_all rfl

end Compiler

end GramIndex
