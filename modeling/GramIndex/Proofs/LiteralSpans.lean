import GramIndex.Proofs.Escapes
import GramIndex.Proofs.Outlines
import GramIndex.Proofs.Plans

/-!
This module contains where the literals of a plan stand in the pattern. They come from spans of
whole characters, in the order of the pattern and apart from each other, and the plan has no more
nodes than two for each byte of the pattern and one.
-/

namespace GramIndex

section Spaced

variable {α : Type} {whole behind : List α} {spans others : List (List α)}

/--
Spans of a list in its order, each of which begins where the one before it ends or later.
-/
inductive Spaced : List α → List (List α) → Prop where
  | nil (whole : List α) : Spaced whole []
  | cons (before span : List α) {behind : List α} {spans : List (List α)}
    (h : Spaced behind spans) : Spaced (before ++ span ++ behind) (span :: spans)

theorem Spaced.prepend (h : Spaced whole spans) (before : List α) :
    Spaced (before ++ whole) spans := by
  cases h with
  | nil => exact .nil _
  | cons before' span h =>
    rw [← List.append_assoc, ← List.append_assoc]
    exact .cons (before ++ before') span h

theorem Spaced.append (h : Spaced whole spans) (hothers : Spaced behind others) :
    Spaced (whole ++ behind) (spans ++ others) := by
  induction h with
  | nil => exact hothers.prepend _
  | cons before span _ ih =>
    rw [List.append_assoc]
    exact .cons before span ih

theorem Spaced.sublist (h : Spaced whole spans) (hsub : others.Sublist spans) :
    Spaced whole others := by
  induction h generalizing others with
  | nil =>
    rw [List.sublist_nil.1 hsub]
    exact .nil _
  | cons before span _ ih =>
    cases hsub with
    | cons _ hsub => exact (ih hsub).prepend _
    | cons_cons _ hsub => exact .cons before span (ih hsub)

theorem spaced_singleton (whole : List α) : Spaced whole [whole] := by
  have h : Spaced ([] ++ whole ++ []) [whole] := .cons [] whole (.nil [])
  simpa using h

/--
The places where the spans begin and end.
-/
theorem Spaced.exists_places (h : Spaced whole spans) :
    ∃ places : List (Nat × Nat), places.Pairwise (fun p q => p.2 ≤ q.1) ∧
      (∀ p ∈ places, p.1 ≤ p.2 ∧ p.2 ≤ whole.length) ∧
      spans = places.map fun p => whole.extract p.1 p.2 := by
  induction h with
  | nil => exact ⟨[], .nil, by simp, rfl⟩
  | @cons before span behind spans _ ih =>
    obtain ⟨places, hpairwise, hbounds, hspans⟩ := ih
    let start := before.length
    let stop := before.length + span.length
    refine ⟨(start, stop) :: places.map fun p => (stop + p.1, stop + p.2), ?_, ?_, ?_⟩
    · rw [List.pairwise_cons, List.pairwise_map]
      refine ⟨?_, hpairwise.imp fun h => Nat.add_le_add_left h stop⟩
      intro q hq
      obtain ⟨p, _, rfl⟩ := List.mem_map.1 hq
      exact Nat.le_add_right stop p.1
    · intro q hq
      simp only [List.length_append]
      cases List.mem_cons.1 hq with
      | inl hq =>
        rw [hq]
        exact ⟨Nat.le_add_right _ _, Nat.le_add_right _ _⟩
      | inr hq =>
        obtain ⟨p, hp, rfl⟩ := List.mem_map.1 hq
        have := hbounds p hp
        exact ⟨Nat.add_le_add_left this.1 stop, Nat.add_le_add_left this.2 stop⟩
    · have hstop : stop = (before ++ span).length := by simp [stop]
      rw [List.map_cons, List.map_map, hspans]
      congr 1
      · simp [List.extract, start, stop]
      · apply List.map_congr_left
        intro p _
        simp only [List.extract, Function.comp_apply]
        rw [Nat.add_sub_add_left, hstop, List.drop_length_add_append]

end Spaced

namespace Pattern

open Plan (literals)

variable {cs ds : List Char} {found others : List Gram}

/--
Literals that are the bytes of spans of the given characters, none of which is empty.
-/
def StandIn (found : List Gram) (cs : List Char) : Prop :=
  ∃ spans, Spaced cs spans ∧ [] ∉ spans ∧ found = spans.map utf8

theorem standIn_nil : StandIn [] cs :=
  ⟨[], .nil cs, by simp, rfl⟩

theorem StandIn.append (h : StandIn found cs) (hothers : StandIn others ds) :
    StandIn (found ++ others) (cs ++ ds) := by
  obtain ⟨spans, hspaced, hnil, rfl⟩ := h
  obtain ⟨spans', hspaced', hnil', rfl⟩ := hothers
  refine ⟨spans ++ spans', hspaced.append hspaced', ?_, List.map_append.symm⟩
  rw [List.mem_append, not_or]
  exact ⟨hnil, hnil'⟩

theorem StandIn.prepend (h : StandIn found ds) (cs : List Char) : StandIn found (cs ++ ds) :=
  standIn_nil.append h

theorem standIn_singleton (h : cs ≠ []) : StandIn [utf8 cs] cs := by
  refine ⟨[cs], spaced_singleton cs, ?_, rfl⟩
  rw [List.mem_singleton]
  exact h.symm

theorem standIn_spanOperand (cs : List Char) :
    StandIn ((spanOperand (utf8 cs)).flatMap literals) cs := by
  unfold spanOperand
  split
  · exact standIn_nil
  · next hempty =>
    apply standIn_singleton
    intro hcs
    rw [hcs] at hempty
    exact hempty rfl

/--
What is found in the parts between bars is found, part after part, in the whole.
-/
theorem standIn_joinBars {f : Gram → List Gram} {first : Gram} {parts : List Gram}
    (h : ∀ part ∈ first :: parts, ∀ cs, utf8 cs = part → StandIn (f part) cs)
    (hcs : utf8 cs = joinBars first parts) : StandIn ((first :: parts).flatMap f) cs := by
  induction parts generalizing first cs with
  | nil =>
    rw [joinBars, List.flatMap_nil, List.append_nil] at hcs
    rw [List.flatMap_cons, List.flatMap_nil, List.append_nil]
    exact h first List.mem_cons_self cs hcs
  | cons part parts ih =>
    have hbar : utf8 cs = first ++ byte '|' :: joinBars part parts := hcs
    obtain ⟨before, d, behind, rfl, hbefore, _, hbehind⟩ := exists_split_utf8 (by decide) hbar
    rw [List.flatMap_cons]
    apply (h first List.mem_cons_self before hbefore).append
    apply StandIn.prepend _ [d]
    apply ih _ hbehind
    intro part' hpart
    exact h part' (List.mem_cons_of_mem first hpart)

theorem standIn_of_resumes {bytes rest : Gram} (h : Resumes bytes rest)
    (hrest : ∀ ds, utf8 ds = rest → StandIn found ds) (hcs : utf8 cs = bytes) :
    StandIn found cs := by
  cases h with
  | inl h =>
    rw [← h] at hcs
    exact hrest cs hcs
  | inr h =>
    obtain ⟨before, b, hb, hbytes⟩ := h
    obtain ⟨ds, d, es, rfl, _, _, hes⟩ := exists_split_utf8 hb (hcs.trans hbytes.symm)
    exact ((hrest es hes).prepend [d]).prepend ds

theorem literals_outline (bytes : Gram) :
    (outline bytes).literals = ((splitBars bytes).1 :: (splitBars bytes).2).flatMap fun part =>
      (operands part).flatMap literals := by
  rw [outline_eq, Plan.literals_any, List.flatMap_map]
  simp only [Plan.literals_all]

theorem standIn_outline (bytes : Gram) :
    ∀ cs, utf8 cs = bytes → StandIn (outline bytes).literals cs := by
  refine outline.induct (fun bytes => ∀ cs, utf8 cs = bytes → StandIn (outline bytes).literals cs)
    (fun bytes => ∀ cs, utf8 cs = bytes → StandIn ((operands bytes).flatMap literals) cs)
    ?_ ?_ ?_ ?_ bytes
  -- The cuts are all at ASCII bytes, so that what is on either side is whole characters again.
  · intro bytes hparts cs hcs
    rw [literals_outline]
    apply standIn_joinBars
    · intro part hpart
      exact hparts ⟨part, hpart⟩
    · rw [joinBars_splitBars, hcs]
  · intro bytes span hopen cs hcs
    rw [operands_of_splitOpen_none hopen, ← hcs]
    exact standIn_spanOperand cs
  · intro bytes span after hopen hclose cs hcs
    have hbytes := hcs.trans (splitOpen_append hopen).symm
    obtain ⟨before, d, behind, rfl, rfl, hd, rfl⟩ := exists_split_utf8 (by decide) hbytes
    rw [operands_of_splitClose_none hopen hclose, List.flatMap_append]
    apply (standIn_spanOperand before).append
    have hrest := standIn_singleton (List.cons_ne_nil d behind)
    rw [utf8_cons, hd] at hrest
    exact hrest
  · intro bytes span after hopen inside behind hclose hbody hrest cs hcs
    have hbytes := hcs.trans (splitOpen_append hopen).symm
    obtain ⟨before, d, cs', rfl, rfl, hd, hafter⟩ := exists_split_utf8 (by decide) hbytes
    have hafter' := hafter.trans (splitClose_append hclose).symm
    obtain ⟨middle, e, end', rfl, rfl, he, hbehind⟩ := exists_split_utf8 (by decide) hafter'
    rw [operands_of_splitClose_some hopen hclose, List.flatMap_append, List.flatMap_cons]
    apply (standIn_spanOperand before).append
    apply StandIn.prepend _ [d]
    apply StandIn.append
    · cases hinside : groupBody? (utf8 middle) with
      | none => exact standIn_nil
      | some body =>
        rw [Option.elim_some]
        split
        · exact standIn_of_resumes (groupBody?_resumes hinside) (hbody body hinside) rfl
        · exact standIn_nil
    · apply StandIn.prepend _ [e]
      exact standIn_of_resumes (quantifiers_resumes behind) hrest hbehind

theorem weight_joinBars_le {f : Gram → Plan Gram} {first : Gram} {parts : List Gram}
    (h : ∀ part ∈ first :: parts, (f part).size ≤ 2 * part.length + 1) :
    Plan.weight ((first :: parts).map f) ≤ 2 * (joinBars first parts).length + 2 := by
  induction parts generalizing first with
  | nil =>
    have hfirst := h first List.mem_cons_self
    simp only [List.map_cons, List.map_nil, Plan.weight, joinBars, List.flatMap_nil,
      List.append_nil]
    omega
  | cons part parts ih =>
    have hfirst := h first List.mem_cons_self
    have hothers := ih fun part' hpart => h part' (List.mem_cons_of_mem first hpart)
    have hbar : joinBars first (part :: parts) = first ++ byte '|' :: joinBars part parts := rfl
    rw [List.map_cons, Plan.weight, hbar, List.length_append, List.length_cons]
    omega

theorem weight_spanOperand_le (span : Gram) :
    Plan.weight (spanOperand span) ≤ 2 * span.length := by
  unfold spanOperand
  split
  · exact Nat.zero_le _
  · next hempty =>
    rw [List.isEmpty_iff] at hempty
    have := List.length_pos_iff.2 hempty
    simp only [Plan.weight, Plan.size]
    omega

/--
A span has a byte at least, a group its two parentheses, and there is a bar between alternatives.
-/
theorem size_outline_le (bytes : Gram) : (outline bytes).size ≤ 2 * bytes.length + 1 := by
  refine outline.induct (fun bytes => (outline bytes).size ≤ 2 * bytes.length + 1)
    (fun bytes => Plan.weight (operands bytes) ≤ 2 * bytes.length) ?_ ?_ ?_ ?_ bytes
  · intro bytes hparts
    have hall : ∀ part ∈ (splitBars bytes).1 :: (splitBars bytes).2,
        (Plan.all (operands part)).size ≤ 2 * part.length + 1 := by
      intro part hpart
      have hweight : Plan.weight (operands part) ≤ 2 * part.length := hparts ⟨part, hpart⟩
      have hsize : (Plan.all (operands part)).size ≤ Plan.weight (operands part) + 1 :=
        Plan.size_all_le
      omega
    have hweight := weight_joinBars_le hall
    have hsize := Plan.size_any (List.cons_ne_nil (Plan.all (operands (splitBars bytes).1))
      ((splitBars bytes).2.map fun part => .all (operands part)))
    rw [joinBars_splitBars, List.map_cons] at hweight
    rw [outline_eq, List.map_cons]
    omega
  · intro bytes span hopen
    rw [operands_of_splitOpen_none hopen]
    exact weight_spanOperand_le bytes
  · intro bytes span after hopen hclose
    have hbytes := congrArg List.length (splitOpen_append hopen)
    have hspan := weight_spanOperand_le span
    rw [operands_of_splitClose_none hopen hclose, Plan.weight_append]
    simp only [List.length_append, List.length_cons] at hbytes
    simp only [Plan.weight, Plan.size]
    omega
  · intro bytes span after hopen inside behind hclose hbody hrest
    have hbytes := congrArg List.length (splitOpen_append hopen)
    have hafter := congrArg List.length (splitClose_append hclose)
    have hspan := weight_spanOperand_le span
    have hbehind := (quantifiers_suffix behind).length_le
    simp only [List.length_append, List.length_cons] at hbytes hafter
    have hgroup : ((groupBody? inside).elim Plan.null fun body =>
        if (quantifiers behind).1 then outline body else .null).size ≤ 2 * inside.length + 1 := by
      cases hinside : groupBody? inside with
      | none => simp [Plan.size]
      | some body =>
        have := hbody body hinside
        have := (groupBody?_suffix hinside).length_le
        rw [Option.elim_some]
        split
        · omega
        · simp [Plan.size]
    rw [operands_of_splitClose_some hopen hclose, Plan.weight_append, Plan.weight]
    omega

end Pattern

namespace Compiler

open Pattern (dropEscapes outline standIn_outline)

variable {c : Compiler}

theorem size_leaf (span : Gram) : (c.leaf span).size = 1 := by
  unfold leaf
  split
  · rfl
  · rfl

theorem literals_leaf (span : Gram) :
    (c.leaf span).literals = if c.isPlainLiteral span then [unescape span] else [] := by
  unfold leaf
  split
  · rfl
  · rfl

/--
The spans that a compiler takes for literals are some of the spans of the outline.
-/
theorem exists_spans (c : Compiler) (cs : List Char) :
    ∃ spans, Spaced cs spans ∧ [] ∉ spans ∧
      (c.compileBytes (utf8 cs)).literals = spans.map fun span => utf8 (dropEscapes span) := by
  unfold compileBytes
  split
  · exact ⟨[], .nil cs, by simp, rfl⟩
  · obtain ⟨spans, hspaced, hnil, hliterals⟩ := standIn_outline (utf8 cs) cs rfl
    let kept := spans.filter fun span => c.isPlainLiteral (utf8 span)
    refine ⟨kept, hspaced.sublist List.filter_sublist, ?_, ?_⟩
    · intro hmem
      exact hnil (List.mem_filter.1 hmem).1
    · rw [Plan.literals_expand, hliterals]
      clear hspaced hnil hliterals
      induction spans with
      | nil => rfl
      | cons span spans ih =>
        rw [List.map_cons, List.flatMap_cons, ih, literals_leaf, unescape_utf8]
        simp only [kept, List.filter_cons]
        split
        · rfl
        · rfl

/--
The literals of a plan are spans of the pattern, each without the backslashes that escape another
character. They consist of whole characters, are not empty, and stand one after the other.
-/
theorem literals_spaced (c : Compiler) (pattern : String) :
    (∃ places : List (Nat × Nat),
      places.Pairwise (fun p q => p.2 ≤ q.1) ∧
      (∀ p ∈ places, p.1 < p.2 ∧ p.2 ≤ pattern.toList.length) ∧
      (c.compile pattern).literals =
        places.map fun p => utf8 (dropEscapes (pattern.toList.extract p.1 p.2))) ∧
    (∀ literal ∈ (c.compile pattern).literals,
      ∃ text : String, text ≠ "" ∧ literal = textBytes text) ∧
    (c.compile pattern).size ≤ 2 * (textBytes pattern).length + 1 := by
  obtain ⟨spans, hspaced, hnil, hliterals⟩ := c.exists_spans pattern.toList
  refine ⟨?_, ?_, ?_⟩
  · obtain ⟨places, hpairwise, hbounds, hspans⟩ := hspaced.exists_places
    refine ⟨places, hpairwise, ?_, ?_⟩
    · intro p hp
      refine ⟨?_, (hbounds p hp).2⟩
      apply Nat.lt_of_le_of_ne (hbounds p hp).1
      intro heq
      apply hnil
      rw [hspans, List.mem_map]
      exact ⟨p, hp, by simp [List.extract, heq]⟩
    · have hcompile :
          (c.compile pattern).literals = spans.map fun span => utf8 (dropEscapes span) := hliterals
      rw [hcompile, hspans, List.map_map]
      rfl
  · intro literal hliteral
    have hmem : literal ∈ spans.map fun span => utf8 (dropEscapes span) := hliterals ▸ hliteral
    obtain ⟨span, hspan, rfl⟩ := List.mem_map.1 hmem
    refine ⟨String.ofList (dropEscapes span), ?_, ?_⟩
    · rw [ne_eq, String.ofList_eq_empty_iff]
      apply Pattern.dropEscapes_ne_nil
      intro heq
      exact hnil (heq ▸ hspan)
    · simp [textBytes]
  · unfold compile compileBytes
    split
    · simp [Plan.size]
    · rw [Plan.size_expand size_leaf]
      exact Pattern.size_outline_le _

example :
    let pattern := "(a\\.b)+|(q)*(cd)"
    (compile default pattern).literals =
      [(1, 5), (13, 15)].map fun p => utf8 (dropEscapes (pattern.toList.extract p.1 p.2)) := by
  cbv

end Compiler

end GramIndex
