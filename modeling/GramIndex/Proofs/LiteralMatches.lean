import GramIndex.Proofs.BarePatterns
import GramIndex.Proofs.Compilation
import GramIndex.Proofs.Completeness

/-!
This module contains where the patterns are found that are taken for literals as a whole: in the
texts that have the literal in them, unless the pattern asks for the start or the end of a word.
-/

namespace GramIndex

open Pattern (byte dropEscapes literalChar)
open Regex (Symbol Token)
open Regex.Token (plains)

variable {cs text : List Char} {symbols : List Symbol} {a more : Gram}

namespace Compiler

/--
The default compiler takes only patterns without structure for literals.
-/
theorem exists_bare (h : (default : Compiler).isPlainLiteral (utf8 cs) = true) :
    ∃ symbols, Symbol.ofChars? cs = some symbols ∧ ∀ s ∈ symbols, s.isBare = true := by
  fun_induction Symbol.ofChars? cs with
  | case1 => exact ⟨[], rfl, by simp⟩
  | case2 => exact absurd h (by decide)
  | case3 d rest ih =>
    obtain ⟨b, tail, hbytes, htail⟩ := exists_utf8EncodeChar_cons d
    have hslash : String.utf8EncodeChar '\\' = [byte '\\'] := rfl
    have hnext : ∀ e ∈ tail, e ≠ byte '\\' := fun e he => ne_byte_of_le (by decide) (htail e he)
    rw [utf8_cons, utf8_cons, hslash, List.singleton_append, hbytes, List.cons_append,
      isPlainLiteral, if_pos rfl, isPlainLiteral_append hnext] at h
    simp only [Bool.and_eq_true, Bool.not_eq_true', List.contains_eq_mem,
      decide_eq_false_iff_not] at h
    obtain ⟨symbols, hsymbols, hbare⟩ := ih h.2.2
    refine ⟨.escaped d :: symbols, by rw [hsymbols]; rfl, List.forall_mem_cons.2 ⟨?_, hbare⟩⟩
    rw [Symbol.isBare, Bool.not_eq_true', Bool.eq_false_iff]
    intro hd
    exact h.1 ((mem_alphanumerics_iff (hbytes ▸ List.mem_cons_self)).2 hd)
  | case4 d rest hend hescape ih =>
    have hd := Symbol.ne_slash hend hescape
    rw [utf8_cons, isPlainLiteral_append fun _ => ne_slash_of_mem_utf8EncodeChar hd,
      Bool.and_eq_true, List.all_eq_true] at h
    obtain ⟨symbols, hsymbols, hbare⟩ := ih h.2
    refine ⟨.plain d :: symbols, by rw [hsymbols]; rfl, List.forall_mem_cons.2 ⟨?_, hbare⟩⟩
    rw [Symbol.isBare, Bool.not_eq_true', Bool.eq_false_iff]
    intro hmeta
    obtain ⟨b, tail, hbytes, _⟩ := exists_utf8EncodeChar_cons d
    have hb : b ∈ String.utf8EncodeChar d := hbytes ▸ List.mem_cons_self
    have hmem : b ∈ defaultMetachars := (mem_defaultMetachars_iff hb).2 ⟨hmeta, hd⟩
    have hfree := h.1 b hb
    simp only [Bool.not_eq_true', List.contains_eq_mem, decide_eq_false_iff_not] at hfree
    exact hfree hmem

end Compiler

namespace Pattern

/--
Whether a span escapes an angle bracket, which asks for the start or the end of a word.
-/
def escapesAngle : Gram → Bool
  | b :: next :: rest =>
    if b = byte '\\' then
      next = byte '<' || next = byte '>' || escapesAngle rest
    else
      escapesAngle (next :: rest)
  | _ => false

theorem dropEscapes_of_symbols (h : Symbol.ofChars? cs = some symbols) :
    dropEscapes cs = symbols.map literalChar := by
  fun_induction Symbol.ofChars? cs generalizing symbols with
  | case1 =>
    cases h
    rfl
  | case2 => simp at h
  | case3 d rest ih =>
    obtain ⟨others, hothers, rfl⟩ := Option.map_eq_some_iff.1 h
    rw [dropEscapes, if_pos rfl, ih hothers]
    rfl
  | case4 d rest hend hescape ih =>
    obtain ⟨others, hothers, rfl⟩ := Option.map_eq_some_iff.1 h
    have hd := Symbol.ne_slash hend hescape
    rw [List.map_cons, ← ih hothers]
    cases rest with
    | nil => rfl
    | cons e rest => rw [dropEscapes, if_neg hd]; rfl

theorem escapesAngle_append (ha : ∀ b ∈ a, b ≠ byte '\\') :
    escapesAngle (a ++ more) = escapesAngle more := by
  induction a with
  | nil => rfl
  | cons b a ih =>
    have hrest := ih fun d hd => ha d (List.mem_cons_of_mem b hd)
    rw [← hrest, List.cons_append]
    cases hmore : a ++ more with
    | nil => rfl
    | cons next rest => rw [escapesAngle, if_neg (ha b List.mem_cons_self)]

theorem isSome_condition? (c : Char) :
    (Symbol.escaped c).condition?.isSome = (c = '<' || c = '>' : Bool) := by
  unfold Symbol.condition?
  split
  · next heq =>
    cases heq
    rfl
  · next heq =>
    cases heq
    rfl
  · next hless hgreater =>
    have hless : c ≠ '<' := fun h => hless (h ▸ rfl)
    have hgreater : c ≠ '>' := fun h => hgreater (h ▸ rfl)
    simp [hless, hgreater]

theorem escapesAngle_utf8 (h : Symbol.ofChars? cs = some symbols) :
    escapesAngle (utf8 cs) = symbols.any fun s => s.condition?.isSome := by
  fun_induction Symbol.ofChars? cs generalizing symbols with
  | case1 =>
    cases h
    rfl
  | case2 => simp at h
  | case3 d rest ih =>
    obtain ⟨others, hothers, rfl⟩ := Option.map_eq_some_iff.1 h
    obtain ⟨b, tail, hbytes, htail⟩ := exists_utf8EncodeChar_cons d
    have hslash : String.utf8EncodeChar '\\' = [byte '\\'] := rfl
    have hnext : ∀ e ∈ tail, e ≠ byte '\\' := fun e he => ne_byte_of_le (by decide) (htail e he)
    have hfirst (e : Char) (he : e.toNat < 128) : b = byte e ↔ d = e := by
      rw [← mem_utf8EncodeChar_iff he, hbytes, List.mem_cons]
      constructor
      · exact fun h => .inl h.symm
      · rintro (h | h)
        · exact h.symm
        · exact absurd rfl (ne_byte_of_le he (htail _ h))
    rw [utf8_cons, utf8_cons, hslash, List.singleton_append, hbytes, List.cons_append,
      escapesAngle, if_pos rfl, escapesAngle_append hnext, ih hothers, List.any_cons,
      isSome_condition?]
    simp only [hfirst '<' (by decide), hfirst '>' (by decide), Bool.or_assoc]
  | case4 d rest hend hescape ih =>
    obtain ⟨others, hothers, rfl⟩ := Option.map_eq_some_iff.1 h
    have hd := Symbol.ne_slash hend hescape
    rw [utf8_cons, escapesAngle_append fun _ => Compiler.ne_slash_of_mem_utf8EncodeChar hd,
      ih hothers]
    rfl

end Pattern

namespace Regex

theorem depth_join_le {α : Type} {op : α → α → α} {none : α} {parts : List (Nested α)}
    (h : ∀ p ∈ parts, p.depth = 0) : (Nested.join op none parts).depth ≤ 1 := by
  have hfoldl {before : List (Nested α)} {last : Nested α} (hlast : last.depth = 1)
      (h : ∀ p ∈ before, p.depth = 0) : (before.foldl (fun list part =>
        ⟨op part.value list.value, max list.depth (part.depth + 1)⟩) last).depth = 1 := by
    induction before generalizing last with
    | nil => exact hlast
    | cons part before ih =>
      obtain ⟨hpart, hbefore⟩ := List.forall_mem_cons.1 h
      exact ih (by simp [hlast, hpart]) hbefore
  match parts with
  | [] => exact Nat.zero_le 1
  | [part] => exact (h part List.mem_cons_self).le.trans (Nat.zero_le 1)
  | last :: part :: before =>
    obtain ⟨hlast, hbefore⟩ := List.forall_mem_cons.1 h
    exact (hfoldl (by simp [Nested.wrap, hlast]) hbefore).le

theorem ofChars?_plain (h : '\\' ∉ cs) : Symbol.ofChars? cs = some (plains cs) := by
  fun_induction Symbol.ofChars? cs with
  | case1 => rfl
  | case2 => simp at h
  | case3 => simp at h
  | case4 d rest hend hescape ih =>
    rw [ih fun hmem => h (List.mem_cons_of_mem d hmem)]
    rfl

theorem all?_plain (h : ∀ c ∈ cs, isMetacharacter c = false) :
    Token.all? (plains cs) = some (cs.map .char) := by
  induction cs with
  | nil => rw [plains, List.map_nil, Token.all?]; rfl
  | cons c cs ih =>
    obtain ⟨hc, hcs⟩ := List.forall_mem_cons.1 h
    have hbare : (Symbol.plain c).isBare = true := by
      rw [Symbol.isBare, hc]
      rfl
    rw [plains, List.map_cons, Symbol.all?_bare hbare, ← plains, ih hcs]
    rfl

/--
Without metacharacters every pattern is well-formed.
-/
theorem exists_ofPattern?_plain (h : ∀ c ∈ cs, isMetacharacter c = false) :
    ∃ r, ofPattern? cs = some r := by
  have hslash : '\\' ∉ cs := Compiler.not_mem_of_isMetacharacter h (by decide)
  have hbare : ∀ s ∈ plains cs, s.isBare = true := by
    simpa [plains, Symbol.isBare] using h
  obtain ⟨last, hlast, hitems, halternatives⟩ :=
    ofTokens?_bare hbare (all?_plain h) (.start false {}) rfl
  refine ⟨_, ofPattern?_eq_some_iff.2 ⟨plains cs, cs.map .char, last.close, ofChars?_plain hslash,
    all?_plain h, ?_, hlast, ?_, rfl⟩⟩
  · have hnames : groupNames (cs.map .char) = [] := by
      simp [groupNames]
    rw [hnames]
    exact List.nodup_nil
  · rw [Level.close, halternatives]
    have hdepth : last.sequence.depth ≤ 1 := by
      apply depth_join_le
      rw [hitems]
      simp [meanings, Level.start, Nested.leaf]
    exact hdepth.trans (by decide)

/--
A pattern without metacharacters is found where its characters stand one after the other.
-/
theorem exists_matches_iff (h : ∀ c ∈ cs, isMetacharacter c = false) :
    ∃ r, ofPattern? cs = some r ∧ ∀ text, r.Matches text ↔ cs <:+: text := by
  obtain ⟨r, hr⟩ := exists_ofPattern?_plain h
  have hslash : '\\' ∉ cs := Compiler.not_mem_of_isMetacharacter h (by decide)
  have hchars : (plains cs).map literalChar = cs := by
    rw [plains, List.map_map]
    exact List.map_id _
  refine ⟨r, hr, fun text => ?_⟩
  rw [matches_letters_iff (ofChars?_plain hslash) (by simpa [plains, Symbol.isBare] using h)
    (by simp [plains, Symbol.condition?]) hr, hchars]

end Regex

namespace RegexMatcher

open Pattern (escapesAngle)

theorem accepts_iff_matches {m : RegexMatcher} {pattern : String} {compiled : CompiledPattern}
    (hcompile : m.compile pattern = .ok compiled) :
    ∃ r, Regex.ofPattern? pattern.toList = some r ∧
      ∀ text, accepts compiled text = true ↔ r.Matches text.toList := by
  unfold compile Engine.compile at hcompile
  split at hcompile
  · next hliteral =>
    cases hcompile
    obtain ⟨r, hr, hmatches⟩ :=
      Regex.exists_matches_iff (Compiler.isMetacharacter_of_isLiteralPattern hliteral)
    refine ⟨r, hr, fun text => ?_⟩
    rw [hmatches, accepts, Engine.accepts, Gram.occursIn_iff, textBytes, textBytes, utf8_infix_iff]
  · split at hcompile
    · cases hcompile
    · next r hr =>
      cases hcompile
      exact ⟨r, Regex.ofPattern?_of_build hr, fun text => Regex.isMatch_iff⟩

/--
A pattern that is a literal as a whole matches the texts that have the literal in them, exactly if
it escapes no angle bracket, which asks for the start or the end of a word.
-/
theorem matches_unescaped_iff (m : RegexMatcher) {pattern : String} {compiled : CompiledPattern}
    (hcompile : m.compile pattern = .ok compiled)
    (hplain : (default : Compiler).isPlainLiteral (textBytes pattern) = true) :
    ∃ r, Regex.ofPattern? pattern.toList = some r ∧
      (∀ text, accepts compiled text = true ↔ r.Matches text.toList) ∧
      ((∀ text : String, r.Matches text.toList ↔
        Compiler.unescape (textBytes pattern) <:+: textBytes text) ↔
          escapesAngle (textBytes pattern) = false) := by
  obtain ⟨r, hr, haccepts⟩ := accepts_iff_matches hcompile
  obtain ⟨symbols, hsymbols, hbare⟩ := Compiler.exists_bare hplain
  refine ⟨r, hr, haccepts, ?_⟩
  have hunescape (text : String) : Compiler.unescape (textBytes pattern) <:+: textBytes text ↔
      symbols.map literalChar <:+: text.toList := by
    rw [textBytes, textBytes, Compiler.unescape_utf8, Pattern.dropEscapes_of_symbols hsymbols,
      utf8_infix_iff]
  simp only [hunescape]
  rw [textBytes, Pattern.escapesAngle_utf8 hsymbols]
  constructor
  · intro hiff
    rw [Bool.eq_false_iff]
    intro hany
    obtain ⟨text, htext⟩ := Regex.exists_differs hsymbols hbare hr (List.any_eq_true.1 hany)
    apply htext
    rw [← String.toList_ofList (l := text)]
    exact hiff (String.ofList text)
  · intro hnone text
    apply Regex.matches_letters_iff hsymbols hbare _ hr
    simpa using hnone

theorem matches_unescaped_iff_point :
    (∃ compiled, compile {} "a\\.é" = .ok compiled) ∧
      (default : Compiler).isPlainLiteral (textBytes "a\\.é") = true ∧
      ∃ r, Regex.ofPattern? "a\\.é".toList = some r ∧ ∀ text : String,
        (r.Matches text.toList ↔ textBytes "a.é" <:+: textBytes text) := by
  have hplain : (default : Compiler).isPlainLiteral (textBytes "a\\.é") = true := by
    decide +kernel
  have hcompile : compile {} "a\\.é" = .ok (.regex (.seq (.single 'a')
      (.seq (.single '.') (.single 'é')))) :=
    compile_eq_ok {} (by decide +kernel) (by decide +kernel) (by decide +kernel)
  obtain ⟨r, hr, _, hiff⟩ := matches_unescaped_iff {} hcompile hplain
  exact ⟨⟨_, hcompile⟩, hplain, r, hr, hiff.2 (by decide +kernel)⟩

/--
The escaped angle bracket asks for the start of a word, and the literal has the bracket itself.
-/
theorem exists_matches_without_angle :
    (default : Compiler).isPlainLiteral (textBytes "\\<ab") = true ∧
      ∃ compiled, compile {} "\\<ab" = .ok compiled ∧ accepts compiled "ab" = true ∧
        ¬ Compiler.unescape (textBytes "\\<ab") <:+: textBytes "ab" := by
  refine ⟨by decide +kernel, .regex (.seq (.look .wordStart) (.seq (.single 'a') (.single 'b'))),
    ?_, ?_, ?_⟩
  · exact compile_eq_ok {} (by decide +kernel) (by decide +kernel) (by decide +kernel)
  · decide +kernel
  · rw [← Gram.occursIn_iff]
    decide +kernel

end RegexMatcher

end GramIndex
