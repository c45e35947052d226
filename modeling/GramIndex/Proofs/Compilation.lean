import GramIndex.Proofs.RunningEngine
import GramIndex.Proofs.Soundness
import GramIndex.Query

/-!
This module contains the soundness of the plans of queries: every text in which an engine finds a
pattern satisfies the plan of the pattern, as long as the scanners are in step with the engine.
-/

namespace GramIndex

open Pattern (Reading areMarks_nil byte flagChars isNested_of_isClass outline)
open Regex (Symbol read?)
open Regex.Bracket (IsClass IsMember)

namespace Compiler

theorem isMetacharacter_of_isLiteralPattern {pattern : String}
    (h : isLiteralPattern pattern = true) : ∀ d ∈ pattern.toList, isMetacharacter d = false := by
  simpa [isLiteralPattern] using h

section LiteralPatterns

variable {cs : List Char} (h : ∀ d ∈ cs, isMetacharacter d = false)

include h

theorem not_mem_of_isMetacharacter {d : Char} (hd : isMetacharacter d = true) : d ∉ cs := by
  intro hmem
  rw [h d hmem] at hd
  cases hd

theorem quiet_plain : Pattern.Quiet .outside (utf8 cs) := by
  apply Pattern.quiet_utf8
  intro d hd
  have hscanned : ∀ d ∈ Pattern.scanned, isMetacharacter d = true := List.all_eq_true.1 (by decide)
  exact not_mem_of_isMetacharacter h (hscanned d hd)

theorem outline_plain :
    outline (utf8 cs) = if cs = [] then .null else .literal (utf8 cs) := by
  have hwellFormed : (Pattern.Skeleton.atom (utf8 cs) .nil).WellFormed id :=
    ⟨quiet_plain h, trivial⟩
  have hprint := Pattern.Skeleton.outline_print hwellFormed
  simp only [Pattern.Skeleton.print, Pattern.Skeleton.alternatives, List.append_nil, id,
    List.nil_append] at hprint
  rw [hprint, Pattern.Skeleton.alternation, Pattern.spanOperand]
  simp only [List.isEmpty_iff, utf8_eq_nil_iff]
  split <;> rfl

theorem ne_slash_of_mem_plain : ∀ b ∈ utf8 cs, b ≠ byte '\\' := fun _ =>
  ne_byte_of_mem_utf8 (by decide) (not_mem_of_isMetacharacter h (by decide))

theorem unescape_plain : unescape (utf8 cs) = utf8 cs := by
  have happend : unescape (utf8 cs ++ []) = utf8 cs ++ unescape [] :=
    unescape_append (ne_slash_of_mem_plain h)
  rw [List.append_nil] at happend
  rw [happend]
  exact List.append_nil _

theorem isPlainLiteral_plain : (default : Compiler).isPlainLiteral (utf8 cs) = true := by
  rw [← List.append_nil (utf8 cs), isPlainLiteral_append (ne_slash_of_mem_plain h),
    Bool.and_eq_true, List.all_eq_true]
  refine ⟨?_, rfl⟩
  intro b hb
  obtain ⟨d, hd, hb⟩ := List.mem_flatMap.1 hb
  have hfree : b ∉ defaultMetachars := by
    rw [mem_defaultMetachars_iff hb, h d hd]
    simp
  rw [Bool.not_eq_true', List.contains_eq_mem, decide_eq_false_iff_not]
  exact hfree

theorem hasInlineFlags_plain : Pattern.hasInlineFlags (utf8 cs) = false := by
  rw [Pattern.hasInlineFlags, ← List.append_nil (utf8 cs),
    Pattern.hasInlineFlags_go_quiet (quiet_plain h)]
  rfl

end LiteralPatterns

/--
The plan of a pattern without metacharacters is that of a span, or says nothing without one.
-/
theorem compile_of_isLiteralPattern {pattern : String} (h : isLiteralPattern pattern = true)
    (c : Compiler) :
    c.compile pattern = if pattern = "" then .null else c.leaf (textBytes pattern) := by
  have hmeta := isMetacharacter_of_isLiteralPattern h
  have hempty : pattern.toList = [] ↔ pattern = "" := String.toList_eq_nil_iff
  rw [compile, compileBytes, textBytes, hasInlineFlags_plain hmeta, outline_plain hmeta]
  simp only [Bool.false_eq_true, if_false, hempty]
  split <;> rfl

theorem satisfies_of_isLiteralPattern {pattern : String} (h : isLiteralPattern pattern = true)
    (c : Compiler) {bytes : Gram} (hoccurs : textBytes pattern <:+: bytes) :
    (c.compile pattern).Satisfies bytes := by
  rw [compile_of_isLiteralPattern h]
  split
  · trivial
  · unfold leaf
    split
    · rw [textBytes, unescape_plain (isMetacharacter_of_isLiteralPattern h)]
      exact hoccurs
    · trivial

end Compiler

namespace RegexMatcher

theorem compile_eq_ok (m : RegexMatcher) {pattern : String} {r : Regex}
    (hmeta : isLiteralPattern pattern = false) (hr : Regex.ofPattern? pattern.toList = some r)
    (hsize : r.isTooLarge m.sizeLimit = false) : m.compile pattern = .ok (.regex r) := by
  simp [compile, Engine.compile, Regex.engine, hmeta, hr, hsize]

end RegexMatcher

namespace Engine

variable {Expression : Type} {e : Engine Expression} {readAs? : String → Option Reading}

theorem exists_allows_of_accepts (he : e.Documented readAs?) {limit : Nat} {pattern text : String}
    {compiled : SearchPattern Expression} (hcompile : e.compile limit pattern = .ok compiled)
    (haccepts : e.accepts compiled text = true) :
    isLiteralPattern pattern = true ∧ textBytes pattern <:+: textBytes text ∨
      ∃ t i j, readAs? pattern = some t ∧ t.Allows text.toList i j := by
  unfold compile at hcompile
  split at hcompile
  · next hliteral =>
    cases hcompile
    exact .inl ⟨hliteral, Gram.occursIn_iff.1 haccepts⟩
  · split at hcompile
    · cases hcompile
    · next r hr =>
      cases hcompile
      obtain ⟨t, ht⟩ := Option.isSome_iff_exists.1 (he.reads hr)
      obtain ⟨i, j, hallows⟩ := he.allows hr ht haccepts
      exact .inr ⟨t, i, j, ht, hallows⟩

/--
No text in which an engine finds a pattern is lost to the plan of the pattern, unless the plan says
something about a pattern that the scanners are not in step with.
-/
theorem satisfies_of_accepts (he : e.Documented readAs?) (limit : Nat) {pattern text : String}
    {compiled : SearchPattern Expression} (hcompile : e.compile limit pattern = .ok compiled)
    (haccepts : e.accepts compiled text = true)
    (hstep : (Query.compile pattern).isUnconstrained = false →
      ∀ t, readAs? pattern = some t → t.InStep) :
    (Query.compile pattern).root.Satisfies (textBytes text) := by
  cases hnull : (Query.compile pattern).isUnconstrained with
  | true =>
    rw [Plan.isNull_iff.1 hnull]
    trivial
  | false =>
    have hroot : (Compiler.compile default pattern).Satisfies (textBytes text) →
        (Query.compile pattern).root.Satisfies (textBytes text) := Plan.holds_propagateNulls.2
    apply hroot
    cases exists_allows_of_accepts he hcompile haccepts with
    | inl h => exact Compiler.satisfies_of_isLiteralPattern h.1 default h.2
    | inr h =>
      obtain ⟨t, i, j, ht, hallows⟩ := h
      obtain ⟨hchars, hfits⟩ := he.fits ht
      rw [Compiler.compile, textBytes, textBytes, ← hchars]
      exact t.satisfies_compileBytes hfits (hstep hnull t ht) hallows

theorem satisfies_of_accepts_bar_in_class :
    Regex.engine.Documented read? ∧ (∃ t, read? "[|](ab|c)" = some t ∧ t.InStep) ∧
      (∃ compiled, RegexMatcher.compile {} "[|](ab|c)" = .ok compiled ∧
        RegexMatcher.accepts compiled "|ab" = true) ∧
      (Query.compile "[|](ab|c)").root = .or (.literal [97, 98]) (.literal [99]) ∧
      (Query.compile "[|](ab|c)").root.Satisfies (textBytes "|ab") := by
  have hread : read? "[|](ab|c)" = some (.item (.bracket ['[', '|', ']']) []
      (.group .capture (.item (.char 'a') [] (.item (.char 'b') []
        (.bar (.item (.char 'c') [] .done)))) [] .done)) := by decide +kernel
  have hclass : IsClass false [.plain '[', .plain '|', .plain ']'] :=
    @IsClass.mk false [] [.plain '|'] (.hyphens false 0 (by decide) (by decide))
      (.symbol (by simp [IsMember]) rfl (by decide) .nil)
  have hstep : ∀ t, read? "[|](ab|c)" = some t → t.InStep := by
    intro t ht
    cases hread.symm.trans ht
    refine ⟨⟨⟨_, rfl, isNested_of_isClass hclass⟩, trivial, ?_, trivial⟩, ?_⟩
    · exact ⟨trivial, trivial, trivial, trivial⟩
    · unfold Reading.Spelled
      decide
  have hcompile : RegexMatcher.compile {} "[|](ab|c)" = .ok (.regex (.seq (.single '|')
      (.group true (.alt (.seq (.single 'a') (.single 'b')) (.single 'c'))))) :=
    RegexMatcher.compile_eq_ok {} (by decide) (by decide +kernel) (by decide +kernel)
  have haccepts : RegexMatcher.accepts (.regex (.seq (.single '|')
      (.group true (.alt (.seq (.single 'a') (.single 'b')) (.single 'c'))))) "|ab" = true := by
    decide +kernel
  have hsatisfies := satisfies_of_accepts Regex.documented_engine _ hcompile haccepts fun _ => hstep
  exact ⟨Regex.documented_engine, ⟨_, hread, hstep _ hread⟩, ⟨_, hcompile, haccepts⟩,
    by decide +kernel, hsatisfies⟩

end Engine

namespace RegexMatcher

/--
The matcher finds the pattern in the text, which does not satisfy the plan of the pattern.
-/
def Loses (pattern text : String) : Prop :=
  ∃ compiled, compile {} pattern = .ok compiled ∧ accepts compiled text = true ∧
    ¬ (Query.compile pattern).root.Satisfies (textBytes text)

theorem loses_of_root {pattern text : String} {r : Regex} {a : Gram}
    (h : isLiteralPattern pattern = false ∧ Regex.ofPattern? pattern.toList = some r ∧
      r.isTooLarge (10 * 1024 * 1024) = false ∧ r.isMatch text.toList = true ∧
      (Query.compile pattern).root = .literal a ∧ a.occursIn (textBytes text) = false) :
    Loses pattern text := by
  obtain ⟨hmeta, hr, hsize, hmatch, hroot, hnone⟩ := h
  refine ⟨_, compile_eq_ok {} hmeta hr hsize, hmatch, ?_⟩
  rw [hroot, Plan.Satisfies, Plan.Holds, ← Gram.occursIn_iff, hnone]
  decide

/--
Matches are lost where a pattern is not aligned, and where it is not spelled.

The class from `A` to an opening bracket ends only later for the scanners, which take the bracket
for another class. They miss the bar, and ask for the group of the other alternative. In the second
pattern, the bracket in the first name begins a class that ends in the second one. The scanners miss
the star, and ask for the group that it repeats. The escaped angle bracket asks for the start of a
word, and the plan for the bracket itself.
-/
theorem loses_out_of_step :
    (Loses "[A-[]|x]](q)" "A" ∧ ∃ t, read? "[A-[]|x]](q)" = some t ∧ t.Spelled) ∧
      (Loses "(?P<a[>(q))*(?P<b]>y)" "y" ∧
        ∃ t, read? "(?P<a[>(q))*(?P<b]>y)" = some t ∧ t.Spelled) ∧
      (Loses "\\<ab" "ab" ∧ ∃ t, read? "\\<ab" = some t ∧ t.Aligned) := by
  have hreads : read? "[A-[]|x]](q)" = some (.item (.bracket ['[', 'A', '-', '[', ']']) []
        (.bar (.item (.char 'x') [] (.item (.char ']') [] (.item (.char ']') []
          (.group .capture (.item (.char 'q') [] .done) [] .done)))))) ∧
      read? "(?P<a[>(q))*(?P<b]>y)" = some (.group (.named true ['a', '['])
        (.group .capture (.item (.char 'q') [] .done) [] .done) [⟨['*'], 0, false⟩]
          (.group (.named true ['b', ']']) (.item (.char 'y') [] .done) [] .done)) ∧
      read? "\\<ab" = some (.item (.escape '<' []) []
        (.item (.char 'a') [] (.item (.char 'b') [] .done))) := by decide +kernel
  obtain ⟨hrange, hname, hangle⟩ := hreads
  refine ⟨⟨?_, _, hrange, ?_⟩, ⟨?_, _, hname, ?_⟩, ?_, _, hangle, ?_⟩
  · apply loses_of_root (r := .alt (.one false (.range 'A' '[')) (.seq (.single 'x')
      (.seq (.single ']') (.seq (.single ']') (.group true (.single 'q')))))) (a := [113])
    decide +kernel
  · unfold Reading.Spelled
    decide
  · apply loses_of_root
      (r := .seq (.repeated (.group true (.group true (.single 'q'))) 0 none false)
        (.group true (.single 'y'))) (a := [113])
    decide +kernel
  · unfold Reading.Spelled
    decide
  · apply loses_of_root (r := .seq (.look .wordStart) (.seq (.single 'a') (.single 'b')))
      (a := [60, 97, 98])
    decide +kernel
  · exact ⟨trivial, trivial, trivial, trivial⟩

end RegexMatcher

namespace Engine

/--
An engine for a single pattern, in which everything from the number sign to the end of the line is a
comment. A text matches it that has the letter before the comment in it.
-/
def commented : Engine Unit where
  build _ pattern := if pattern = "(?x:a#)b(\n)" then .ok () else .error "unknown"
  isMatch _ text := text.toList.contains 'a'

/--
How the pattern of `commented` is read.
-/
def readCommented? (pattern : String) : Option Reading :=
  if pattern = "(?x:a#)b(\n)" then
    some (.flagged ['x'] ['a', '#', ')', 'b', '(', '\n'] [] .done)
  else
    none

theorem documented_commented : commented.Documented readCommented? where
  reads := by
    intro limit pattern r h
    simp only [commented] at h
    split at h
    · next hpattern =>
      rw [readCommented?, if_pos hpattern]
      rfl
    · cases h
  fits := by
    intro pattern t h
    unfold readCommented? at h
    split at h
    · next hpattern =>
      cases h
      rw [hpattern]
      exact ⟨rfl, ⟨by simp, by simp [flagChars]⟩, areMarks_nil, trivial⟩
    · cases h
  allows := by
    intro limit pattern text r t _ h _
    unfold readCommented? at h
    split at h
    · cases h
      exact ⟨0, 0, .inl ⟨0, rfl⟩⟩
    · cases h

/--
The comment ends the group for the scanners, which ask for what is left of it.
-/
theorem exists_lost_of_comment :
    (∃ t, readCommented? "(?x:a#)b(\n)" = some t ∧ t.Spelled) ∧
      ∃ compiled, commented.compile (10 * 1024 * 1024) "(?x:a#)b(\n)" = .ok compiled ∧
        commented.accepts compiled "a" = true ∧
        ¬ (Query.compile "(?x:a#)b(\n)").root.Satisfies (textBytes "a") := by
  have hroot : (Query.compile "(?x:a#)b(\n)").root = .and (.literal [98]) (.literal [10]) := by
    with_unfolding_all rfl
  refine ⟨⟨_, rfl, ?_⟩, .regex (), by decide, by decide, ?_⟩
  · unfold Reading.Spelled
    decide
  · rw [hroot, Plan.Satisfies, Plan.Holds, Plan.Holds, ← Gram.occursIn_iff]
    rintro ⟨hletter, _⟩
    revert hletter
    decide

end Engine

end GramIndex
