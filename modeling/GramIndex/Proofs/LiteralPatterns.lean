import GramIndex.Proofs.LiteralMatches
import GramIndex.Proofs.Sessions

/-!
This module contains why it does not matter how a pattern without metacharacters is searched for: as
bytes, as an expression, or among the candidates of an index.
-/

namespace GramIndex

variable {pattern : String} {data : Dataset} {index : Index}

theorem Query.root_of_isLiteralPattern (h : isLiteralPattern pattern = true) :
    (Query.compile pattern).root =
      if pattern = "" then .null else .literal (textBytes pattern) := by
  have hmeta := Compiler.isMetacharacter_of_isLiteralPattern h
  have hleaf : (default : Compiler).leaf (textBytes pattern) = .literal (textBytes pattern) := by
    rw [Compiler.leaf, textBytes, Compiler.isPlainLiteral_plain hmeta, if_pos rfl,
      Compiler.unescape_plain hmeta]
  rw [Query.compile, Query.compileWith, Compiler.compile_of_isLiteralPattern h, hleaf]
  split <;> rfl

namespace RegexMatcher

variable {m : RegexMatcher}

theorem compile_literal (h : isLiteralPattern pattern = true) :
    m.compile pattern = .ok (.literal (textBytes pattern)) := by
  rw [compile, Engine.compile, if_pos h]

theorem accepts_literal_iff {text : String} :
    accepts (.literal (textBytes pattern)) text = true ↔ textBytes pattern <:+: textBytes text :=
  Gram.occursIn_iff

theorem exists_accepts_eq (h : isLiteralPattern pattern = true) :
    ∃ r, Regex.ofPattern? pattern.toList = some r ∧ ∀ text : String,
      accepts (.literal (textBytes pattern)) text = accepts (.regex r) text ∧
        (accepts (.regex r) text = true ↔ pattern.toList <:+: text.toList) := by
  obtain ⟨r, hr, hmatches⟩ :=
    Regex.exists_matches_iff (Compiler.isMetacharacter_of_isLiteralPattern h)
  refine ⟨r, hr, fun text => ?_⟩
  have hregex : accepts (.regex r) text = true ↔ pattern.toList <:+: text.toList :=
    Regex.isMatch_iff.trans (hmatches text.toList)
  refine ⟨?_, hregex⟩
  rw [Bool.eq_iff_iff, hregex, accepts_literal_iff, textBytes, textBytes, utf8_infix_iff]

/--
The matcher does not respect the plans of all patterns, but it does those of literal patterns.
-/
theorem satisfies_root (h : isLiteralPattern pattern = true) {text : String}
    (haccepts : accepts (.literal (textBytes pattern)) text = true) :
    (Query.compile pattern).root.Satisfies (textBytes text) := by
  rw [Query.root_of_isLiteralPattern h]
  split
  · trivial
  · exact accepts_literal_iff.1 haccepts

theorem matchingIds_literal (h : isLiteralPattern pattern = true) (hindex : index.BuiltOver data) :
    ∃ opened, Session.start index data m.toMatcher = .ok opened ∧ ∀ calls,
      ((opened.run calls).matchingIds pattern).result =
        .ok (data.matching m.toMatcher (.literal (textBytes pattern))) := by
  refine ⟨_, Session.start_eq_ok hindex.scans, fun calls => ?_⟩
  have hrun : ((⟨index, data, m.toMatcher, []⟩ : Session CompiledPattern).run calls).Faithful
      index data m.toMatcher :=
    Session.keeps_run (fun _ pattern hs => (hs.prepare pattern).2) Session.faithful_new calls
  exact hrun.matchingIds_ok hindex.scans (compile_literal h) fun _ => satisfies_root h

/--
A pattern without metacharacters is found as bytes where it is found as an expression, which is
where its characters are. Its plan is its literal, and a session over any index of a dataset answers
with the ascending ids of the records that have it in them, whatever it was asked before.
-/
theorem literal_paths_agree (m : RegexMatcher) (h : isLiteralPattern pattern = true) :
    m.compile pattern = .ok (.literal (textBytes pattern)) ∧
      (∃ r, Regex.ofPattern? pattern.toList = some r ∧ ∀ text : String,
        (accepts (.literal (textBytes pattern)) text = true ↔
          textBytes pattern <:+: textBytes text) ∧
        accepts (.literal (textBytes pattern)) text = accepts (.regex r) text ∧
        (accepts (.regex r) text = true ↔ pattern.toList <:+: text.toList)) ∧
      (Query.compile pattern).root =
        (if pattern = "" then .null else .literal (textBytes pattern)) ∧
      ∀ (data : Dataset) (index : Index), index.BuiltOver data →
        ∃ opened, Session.start index data m.toMatcher = .ok opened ∧ ∀ calls, ∃ ids,
          ((opened.run calls).matchingIds pattern).result = .ok ids ∧ ids.Pairwise (· < ·) ∧
          ∀ id, id ∈ ids ↔
            ∃ text, data.text? id = some text ∧ pattern.toList <:+: text.toList := by
  obtain ⟨r, hr, haccepts⟩ := exists_accepts_eq h
  refine ⟨compile_literal h, ⟨r, hr, fun text => ⟨accepts_literal_iff, haccepts text⟩⟩,
    Query.root_of_isLiteralPattern h, ?_⟩
  intro data index hindex
  obtain ⟨opened, hopened, hids⟩ := matchingIds_literal (m := m) h hindex
  refine ⟨opened, hopened, fun calls => ⟨_, hids calls, List.pairwise_lt_range.filter _, ?_⟩⟩
  intro id
  rw [Dataset.mem_matching]
  have htexts (text : String) : m.toMatcher.accepts (.literal (textBytes pattern)) text = true ↔
      pattern.toList <:+: text.toList := by
    rw [← (haccepts text).2, ← (haccepts text).1]
    rfl
  simp only [htexts]

theorem literal_paths_agree_accent :
    isLiteralPattern "é" = true ∧
      let data := Dataset.ofList ["café", "tea", "é"]
      ∃ index, Index.fromKeys data ⟨[[97]], by decide⟩ 1 = .ok index ∧
        ∃ opened, Session.start index data (toMatcher {}) = .ok opened ∧ ∀ calls, ∃ ids,
          ((opened.run calls).matchingIds "é").result = .ok ids ∧ ids.Pairwise (· < ·) ∧
          ∀ id, id ∈ ids ↔ ∃ text, data.text? id = some text ∧ "é".toList <:+: text.toList := by
  have hliteral : isLiteralPattern "é" = true := by decide
  refine ⟨hliteral, _, rfl, ?_⟩
  obtain ⟨_, _, _, hsessions⟩ := literal_paths_agree {} hliteral
  exact hsessions _ _ (@Index.BuiltOver.given (Dataset.ofList ["café", "tea", "é"]) _
    ⟨[[97]], by decide⟩ 1 rfl)

end RegexMatcher

end GramIndex
